import DshClashProxy.Core.Sip004
import DshClashProxy.Core.Transports
import DshClashProxy.Js.Number

/-!
# WebSocket frames

`WsStream` writes masked binary frames and reads frames of any kind, masked or not, with the
length in any of its three forms. What is read does not depend on the cut of the stream: the
data payloads come out as they were put in. A ping is answered with a pong that has room for
125 bytes, whatever the length of the ping.
-/
namespace DshClashProxy.Core.WebSocket

open Js Lib.ByteSource Transports Sip004

def maskPayload (payload maskKey : Bytes) : Bytes :=
  payload.mapIdx fun i b => b ^^^ maskKey[i % 4]?.getD 0

/-- The bytes that `write` sends, under the key it draws. -/
def write (maskKey : Sized 4) (payload : Bytes) : Bytes :=
  let header : Bytes :=
    if payload.length < 126 then [0x82, UInt8.ofNat (0x80 ||| payload.length)]
    else if payload.length < 65536 then
      [0x82, 0x80 ||| 126] ++ Bytes.uint16BE payload.length
    else [0x82, 0x80 ||| 127] ++ Bytes.uintBE 8 payload.length
  header ++ maskKey.val ++ maskPayload payload maskKey

/-- `Number(value)` of a `BigInt`, as a count of bytes. -/
def toCount (value : Nat) : Nat :=
  match Number.round value with
  | .finite q => q.num.toNat
  | _ => 0

section
variable {source : Source UInt8} {ε : Type}

/-- The length behind its seven bits. -/
def readLength (low : UInt8) : source.Reads ε Nat :=
  if low = 126 then do
    let b ← Source.next 2
    return (Bytes.readUInt16BE b 0).getD 0
  else if low = 127 then do
    let b ← Source.next 8
    return toCount (Bytes.natBE b)
  else pure low.toNat

/-- Opcode and payload of the next frame. -/
def readFrame : source.Reads ε (UInt8 × Bytes) := do
  let b0 ← readByte
  let b1 ← readByte
  let length ← readLength (b1 &&& 0x7f)
  if b1 &&& 0x80 ≠ 0 then
    let maskKey ← Source.next 4
    let payload ← Source.next length
    return (b0 &&& 0x0f, maskPayload payload maskKey)
  else
    let payload ← Source.next length
    return (b0 &&& 0x0f, payload)

/-- What one turn of the loop of `read` does. -/
inductive Pass where
  | yielded (payload : Bytes)
  /-- A ping is answered: its payload, and what is written to the socket. -/
  | answered (ping pong : Bytes)
  | skipped
  | closed
  deriving DecidableEq

/-- The pong that answers a ping. -/
def pong (pongMask : Sized 4) (payload : Bytes) : Bytes :=
  [0x8a, UInt8.ofNat (0x80 ||| payload.length)] ++ pongMask.val ++ maskPayload payload pongMask

def passOf (pongMask : Sized 4) (opcode : UInt8) (payload : Bytes) : Pass :=
  if opcode = 0x8 then .closed
  else if opcode = 0x9 then .answered payload (pong pongMask payload)
  else if opcode = 0xa then .skipped
  else if payload.length > 0 then .yielded payload
  else .skipped

/-- One turn of the loop, with the mask that it draws for a pong. -/
def pass (pongMask : Sized 4) : source.Reads ε Pass := do
  let (opcode, payload) ← readFrame
  return passOf pongMask opcode payload

end

/-- The turns that the loop takes from one state to another without returning. The i-th turn
draws the i-th mask. -/
inductive Passes {source : Source UInt8} (masks : Nat → Sized 4) :
    Nat → source.State → List Pass → source.State → Prop where
  | nil {i : Nat} {s : source.State} : Passes masks i s [] s
  | cons {i : Nat} {s s' s'' : source.State} {p : Pass} {ps : List Pass} :
      (pass (masks i) : source.Reads Text Pass) s = some (.ok p, s') → p ≠ .closed →
      Passes masks (i + 1) s' ps s'' → Passes masks i s (p :: ps) s''

def Pass.chunk? : Pass → Option Bytes
  | .yielded payload => some payload
  | _ => none

/-- On an open socket the loop yields these chunks and then waits. -/
def ReadsOut (masks : Nat → Sized 4) (s : OpenSocket) (chunks : List Bytes) : Prop :=
  ∃ ps s', @Passes OpenSocket.source masks 0 s ps s' ∧
    (pass (masks ps.length) : OpenSocket.source.Reads Text Pass) s' = none ∧
    ps.filterMap Pass.chunk? = chunks

/-! ## Frames -/

/-- The forms of a length. The last one may declare more than a double can count exactly. -/
inductive LengthForm where
  | short
  | medium
  | long (declared : Nat)
  deriving DecidableEq

/-- The form declares this many bytes. -/
def LengthForm.Declares : LengthForm → Nat → Prop
  | short, n => n < 126
  | medium, n => n < 65536
  | long declared, n => declared < 256 ^ 8 ∧ toCount declared = n

instance (n : Nat) : (form : LengthForm) → Decidable (form.Declares n)
  | .short => inferInstanceAs (Decidable (n < 126))
  | .medium => inferInstanceAs (Decidable (n < 65536))
  | .long declared => inferInstanceAs (Decidable (declared < 256 ^ 8 ∧ toCount declared = n))

/-- The seven bits in the second byte. -/
def LengthForm.low : LengthForm → Nat → Nat
  | short, n => n
  | medium, _ => 126
  | long _, _ => 127

/-- The bytes behind the second one. -/
def LengthForm.extended : LengthForm → Nat → Bytes
  | short, _ => []
  | medium, n => Bytes.uint16BE n
  | long declared, _ => Bytes.uintBE 8 declared

structure Frame where
  b0 : UInt8
  form : LengthForm
  maskKey : Option (Sized 4)
  payload : Bytes
  fits : form.Declares payload.length

def Frame.opcode (f : Frame) : UInt8 := f.b0 &&& 0x0f

def Frame.encode (f : Frame) : Bytes :=
  let low := f.form.low f.payload.length
  let extended := f.form.extended f.payload.length
  match f.maskKey with
  | some key =>
      f.b0 :: UInt8.ofNat (0x80 ||| low) :: (extended ++ (key.val ++ maskPayload f.payload key))
  | none => f.b0 :: UInt8.ofNat low :: (extended ++ f.payload)

/-- What the server sends: frames of the client's own writer, or any frame but a close. -/
inductive Item where
  | written (maskKey : Sized 4) (payload : Bytes) (h : payload.length < 2 ^ 53)
  | frame (f : Frame) (h : f.opcode ≠ 0x8)

def Item.bytes : Item → Bytes
  | written maskKey payload _ => write maskKey payload
  | frame f _ => f.encode

/-- The payload of a data frame. -/
def Item.payload? : Item → Option Bytes
  | written _ payload _ => some payload
  | frame f _ => if f.opcode = 0x9 ∨ f.opcode = 0xa then none else some f.payload

/-! ## Masks -/

theorem length_maskPayload (payload maskKey : Bytes) :
    (maskPayload payload maskKey).length = payload.length := List.length_mapIdx

/-- Masking twice under one key changes nothing. -/
theorem maskPayload_maskPayload (payload maskKey : Bytes) :
    maskPayload (maskPayload payload maskKey) maskKey = payload := by
  refine List.ext_getElem ?_ fun i hi hi' => ?_
  · rw [length_maskPayload, length_maskPayload]
  · simp only [maskPayload, List.getElem_mapIdx, UInt8.xor_assoc, UInt8.xor_self, UInt8.xor_zero]

/-! ## The second byte -/

theorem secondByte (n : Fin 128) :
    UInt8.ofNat n.val &&& 0x80 = 0 ∧ UInt8.ofNat n.val &&& 0x7f = UInt8.ofNat n.val ∧
      UInt8.ofNat (0x80 ||| n.val) &&& 0x80 ≠ 0 ∧
      UInt8.ofNat (0x80 ||| n.val) &&& 0x7f = UInt8.ofNat n.val := by
  revert n
  decide

/-- A byte is its seven bits, with or without the mask bit. -/
theorem secondByte_inv (n : Fin 256) :
    (UInt8.ofNat n.val &&& 0x7f).toNat < 128 ∧
      UInt8.ofNat n.val = UInt8.ofNat (if UInt8.ofNat n.val &&& 0x80 ≠ 0 then
        0x80 ||| (UInt8.ofNat n.val &&& 0x7f).toNat else (UInt8.ofNat n.val &&& 0x7f).toNat) := by
  revert n
  decide +kernel

theorem low_lt {form : LengthForm} {n : Nat} (h : form.Declares n) : form.low n < 128 := by
  cases form with
  | short => exact Nat.lt_trans h (by decide)
  | medium => exact show 126 < 128 by decide
  | long declared => exact show 127 < 128 by decide

theorem toCount_of_lt {n : Nat} (h : n < 2 ^ 53) : toCount n = n := by
  rw [toCount, Number.round_natCast h]
  exact Int.toNat_natCast n

section
variable {source : Source UInt8} {ε : Type}

theorem consumes_length {form : LengthForm} {n : Nat} (h : form.Declares n) :
    Source.Consumes (readLength (UInt8.ofNat (form.low n)) : source.Reads ε Nat)
      (form.extended n) n := by
  cases form with
  | short =>
      have h : n < 126 := h
      have hn : (UInt8.ofNat n).toNat = n := by
        rw [UInt8.toNat_ofNat']
        exact Nat.mod_eq_of_lt (by omega)
      have h126 : ¬ UInt8.ofNat n = 126 := fun he => by
        have := congrArg UInt8.toNat he
        rw [hn] at this
        exact absurd this (show n ≠ 126 by omega)
      have h127 : ¬ UInt8.ofNat n = 127 := fun he => by
        have := congrArg UInt8.toNat he
        rw [hn] at this
        exact absurd this (show n ≠ 127 by omega)
      have hp : Source.Consumes (pure n : source.Reads ε Nat) [] n := Source.consumes_pure n
      rw [LengthForm.low, readLength, if_neg h126, if_neg h127, hn]
      exact hp
  | medium =>
      refine (Source.consumes_of_length (show (Bytes.uint16BE n).length = 2 from rfl)).bind_nil ?_
      rw [Bytes.readUInt16BE_uint16BE h]
      exact Source.consumes_pure n
  | long declared =>
      obtain ⟨hlt, rfl⟩ := h
      refine (Source.consumes_of_length (Bytes.length_uintBE 8 declared)).bind_nil ?_
      rw [Bytes.natBE_uintBE hlt]
      exact Source.consumes_pure _

/-- A frame is read whole, and its payload unmasked. -/
theorem consumes_frame (f : Frame) :
    Source.Consumes (readFrame : source.Reads ε (UInt8 × Bytes)) f.encode
      (f.opcode, f.payload) := by
  obtain ⟨b0, form, maskKey, payload, fits⟩ := f
  obtain ⟨hclear, hlow, hset, hmasked⟩ := secondByte ⟨_, low_lt fits⟩
  cases maskKey with
  | none =>
      refine (consumes_byte _).bind ((consumes_byte _).bind ?_)
      simp only [hclear, hlow, ne_eq, not_true_eq_false, if_false]
      exact (consumes_length fits).bind ((Source.consumes_of_length rfl).bind_nil
        (Source.consumes_pure _))
  | some key =>
      refine (consumes_byte _).bind ((consumes_byte _).bind ?_)
      simp only [hset, hmasked, ne_eq, not_false_eq_true, if_true]
      refine (consumes_length fits).bind ((Source.consumes_of_length key.property).bind ?_)
      refine (Source.consumes_of_length (length_maskPayload payload key)).bind_nil ?_
      rw [maskPayload_maskPayload]
      exact Source.consumes_pure _

theorem consumes_pass (pongMask : Sized 4) (f : Frame) :
    Source.Consumes (pass pongMask : source.Reads ε Pass) f.encode
      (passOf pongMask f.opcode f.payload) :=
  (consumes_frame f).bind_nil (Source.consumes_pure _)

/-! ## Runs of the loop -/

theorem passOf_ne_closed {pongMask : Sized 4} {opcode : UInt8} (h : opcode ≠ 0x8)
    (payload : Bytes) : passOf pongMask opcode payload ≠ .closed := by
  rw [passOf, if_neg h]
  split
  · exact Pass.noConfusion
  split
  · exact Pass.noConfusion
  split <;> exact Pass.noConfusion

/-- The turns that whole frames cause. -/
def passesOf (masks : Nat → Sized 4) : Nat → List Frame → List Pass
  | _, [] => []
  | i, f :: fs => passOf (masks i) f.opcode f.payload :: passesOf masks (i + 1) fs

/-- Frames that are all there are read one after the other. -/
theorem passes_of_frames (masks : Nat → Sized 4) {fs : List Frame}
    (hopen : ∀ f ∈ fs, f.opcode ≠ 0x8) {s : source.State} {rest : Bytes} (i : Nat)
    (h : source.content s = fs.flatMap Frame.encode ++ rest) :
    ∃ s', Passes masks i s (passesOf masks i fs) s' ∧ source.content s' = rest := by
  induction fs generalizing s i with
  | nil => exact ⟨s, .nil, h⟩
  | cons f fs ih =>
      rw [List.flatMap_cons, List.append_assoc] at h
      obtain ⟨s', hp, hc⟩ := consumes_pass (masks i) f s _ h
      obtain ⟨s'', hps, hc'⟩ := ih (fun g hg => hopen g (List.mem_cons_of_mem _ hg)) (i + 1) hc
      exact ⟨s'', .cons hp (passOf_ne_closed (hopen f (by simp)) _) hps, hc'⟩

/-- The loop has one run up to the turn that does not end. -/
theorem passes_unique {masks : Nat → Sized 4} {i : Nat} {s s₁ s₂ : source.State}
    {ps₁ ps₂ : List Pass} (h₁ : Passes masks i s ps₁ s₁) (h₂ : Passes masks i s ps₂ s₂)
    (hw₁ : (pass (masks (i + ps₁.length)) : source.Reads Text Pass) s₁ = none)
    (hw₂ : (pass (masks (i + ps₂.length)) : source.Reads Text Pass) s₂ = none) : ps₁ = ps₂ := by
  induction h₁ generalizing ps₂ with
  | nil =>
      cases h₂ with
      | nil => rfl
      | cons hp _ _ => cases hw₁.symm.trans hp
  | cons hp _ _ ih =>
      cases h₂ with
      | nil => cases hw₂.symm.trans hp
      | cons hp' _ hps' =>
          cases hp.symm.trans hp'
          rw [List.length_cons, Nat.add_comm _ 1, ← Nat.add_assoc] at hw₁ hw₂
          rw [ih hps' hw₁ hw₂]

/-- A turn waits where nothing is left to read. -/
theorem pass_waits (hexact : source.Exact) (pongMask : Sized 4) {s : source.State}
    (h : source.content s = []) : (pass pongMask : source.Reads ε Pass) s = none := by
  have hnext : (Source.next 1 : source.Reads ε Bytes) s = none :=
    hexact.next_waits (by rw [h]; exact Nat.one_pos)
  exact Source.bind_none _ (Source.bind_none _ (Source.bind_none _ hnext))

end

/-! ## Round trips -/

/-- The shortest form that declares a length below `2^53`. -/
def formOf (n : Nat) : LengthForm :=
  if n < 126 then .short else if n < 65536 then .medium else .long n

theorem formOf_declares {n : Nat} (h : n < 2 ^ 53) : (formOf n).Declares n := by
  rw [formOf]
  split
  · assumption
  split
  · assumption
  · exact ⟨Nat.lt_trans h (by decide), toCount_of_lt h⟩

/-- What `write` sends, as a frame. -/
def writtenFrame (maskKey : Sized 4) (payload : Bytes) (h : payload.length < 2 ^ 53) : Frame :=
  ⟨0x82, formOf payload.length, some maskKey, payload, formOf_declares h⟩

theorem encode_writtenFrame (maskKey : Sized 4) (payload : Bytes) (h : payload.length < 2 ^ 53) :
    (writtenFrame maskKey payload h).encode = write maskKey payload := by
  simp only [Frame.encode, writtenFrame, write, formOf]
  by_cases h126 : payload.length < 126
  · simp only [if_pos h126]
    rfl
  by_cases h16 : payload.length < 65536
  · have hlow : (0x80 ||| 126 : UInt8) = UInt8.ofNat (0x80 ||| 126) := by decide
    simp only [if_neg h126, if_pos h16, hlow]
    rfl
  · have hlow : (0x80 ||| 127 : UInt8) = UInt8.ofNat (0x80 ||| 127) := by decide
    simp only [if_neg h126, if_neg h16, hlow, List.append_assoc]
    rfl

def Item.asFrame : Item → Frame
  | written maskKey payload h => writtenFrame maskKey payload h
  | frame f _ => f

theorem Item.encode_asFrame (item : Item) : item.asFrame.encode = item.bytes := by
  cases item with
  | written maskKey payload h => exact encode_writtenFrame maskKey payload h
  | frame f h => rfl

theorem Item.open_asFrame (item : Item) : item.asFrame.opcode ≠ 0x8 := by
  cases item with
  | written maskKey payload h => exact show (0x82 : UInt8) &&& 0x0f ≠ 0x8 by decide
  | frame f h => exact h

/-- The turn that an item causes yields its payload unless that is empty. -/
theorem chunk_asFrame (pongMask : Sized 4) (item : Item) :
    (passOf pongMask item.asFrame.opcode item.asFrame.payload).chunk? =
      item.payload?.filter (· ≠ []) := by
  have hdata : ∀ {opcode : UInt8} (payload : Bytes), opcode ≠ 0x8 → opcode ≠ 0x9 →
      opcode ≠ 0xa → (passOf pongMask opcode payload).chunk? =
        (some payload).filter (· ≠ []) := by
    intro opcode payload h8 h9 ha
    rw [passOf, if_neg h8, if_neg h9, if_neg ha]
    cases payload <;> rfl
  cases item with
  | written maskKey payload h =>
      have hopcode : (writtenFrame maskKey payload h).opcode = 0x2 :=
        show (0x82 : UInt8) &&& 0x0f = 0x2 by decide
      change (passOf pongMask (writtenFrame maskKey payload h).opcode payload).chunk? = _
      rw [hopcode]
      exact hdata payload (by decide) (by decide) (by decide)
  | frame f h =>
      change (passOf pongMask f.opcode f.payload).chunk? =
        (if f.opcode = 0x9 ∨ f.opcode = 0xa then none else some f.payload).filter _
      by_cases h9 : f.opcode = 0x9
      · rw [if_pos (Or.inl h9), passOf, if_neg h, if_pos h9]
        rfl
      by_cases ha : f.opcode = 0xa
      · rw [if_pos (Or.inr ha), passOf, if_neg h, if_neg h9, if_pos ha]
        rfl
      · rw [if_neg (not_or.mpr ⟨h9, ha⟩)]
        exact hdata f.payload h h9 ha

theorem chunks_of_items (masks : Nat → Sized 4) (items : List Item) (i : Nat) :
    (passesOf masks i (items.map Item.asFrame)).filterMap Pass.chunk? =
      (items.filterMap Item.payload?).filter (· ≠ []) := by
  induction items generalizing i with
  | nil => rfl
  | cons item items ih =>
      have hc := chunk_asFrame (masks i) item
      rw [List.map_cons, passesOf, List.filterMap_cons, List.filterMap_cons, hc, ih]
      cases item.payload? with
      | none => rfl
      | some payload => cases payload <;> rfl

/-- However the stream is cut, the loop yields the data payloads that are not empty. -/
theorem read_yields_payloads (masks : Nat → Sized 4) (items : List Item) {s : OpenSocket}
    (h : s.content = items.flatMap Item.bytes) (chunks : List Bytes) :
    ReadsOut masks s chunks ↔ chunks = (items.filterMap Item.payload?).filter (· ≠ []) := by
  have hcontent : OpenSocket.source.content s =
      (items.map Item.asFrame).flatMap Frame.encode ++ [] := by
    rw [List.append_nil, List.flatMap_map]
    refine h.trans ?_
    simp only [Item.encode_asFrame]
  have hopen : ∀ f ∈ items.map Item.asFrame, f.opcode ≠ 0x8 := by
    intro f hf
    obtain ⟨item, -, rfl⟩ := List.mem_map.mp hf
    exact item.open_asFrame
  obtain ⟨s', hps, hc⟩ := passes_of_frames masks hopen 0 hcontent
  constructor
  · intro h
    obtain ⟨ps, s₁, hps₁, hw₁, rfl⟩ := h
    have hw := pass_waits (ε := Text) openSocket_exact
      (masks (0 + (passesOf masks 0 (items.map Item.asFrame)).length)) hc
    rw [← Nat.zero_add ps.length] at hw₁
    rw [passes_unique hps₁ hps hw₁ hw]
    exact chunks_of_items masks items 0
  · intro h
    exact ⟨_, s', hps, pass_waits openSocket_exact _ hc,
      (chunks_of_items masks items 0).trans h.symm⟩

/-- An empty ping. -/
def ping : Frame := ⟨0x89, .short, none, [], by decide⟩

/-- A ping between two data frames, the second of which declares its one byte in 64 bits. -/
def greeting : List Item :=
  [.written ⟨[1, 2, 3, 4], rfl⟩ [0x48, 0x69] (by decide), .frame ping (by decide),
    .frame ⟨0x82, .long 1, none, [0x21], by decide, by decide +kernel⟩ (by decide)]

/-- The stream comes in byte by byte. -/
def greeted : OpenSocket := { schedule := (greeting.flatMap Item.bytes).map fun b => some [b] }

theorem greeting_reads_out :
    ReadsOut (fun _ => ⟨[5, 6, 7, 8], rfl⟩) greeted [[0x48, 0x69], [0x21]] :=
  (read_yields_payloads _ greeting (by decide +kernel) _).mpr (by decide)

/-! ## What a turn has read -/

section
variable {source : Source UInt8} {ε : Type}

theorem pure_inv {β : Type} {b b' : β} {s s' : source.State}
    (h : (pure b : source.Reads ε β) s = some (.ok b', s')) : b = b' ∧ s = s' := by
  cases h
  exact ⟨rfl, rfl⟩

theorem readByte_inv (hexact : source.Exact) {s s' : source.State} {b : UInt8}
    (h : (readByte : source.Reads ε UInt8) s = some (.ok b, s')) :
    source.content s = b :: source.content s' := by
  obtain ⟨bytes, _, hn, hp⟩ := Source.bind_inv h
  obtain ⟨hc, hl⟩ := hexact.next_inv hn
  obtain ⟨rfl, rfl⟩ := pure_inv hp
  obtain ⟨c, rfl⟩ := List.length_eq_one_iff.mp hl
  exact hc

/-- A length that was read has a form that declares it. -/
theorem readLength_inv (hexact : source.Exact) {low : UInt8} (hlow : low.toNat < 128)
    {s s' : source.State} {n : Nat}
    (h : (readLength low : source.Reads ε Nat) s = some (.ok n, s')) :
    ∃ form : LengthForm, form.Declares n ∧ UInt8.ofNat (form.low n) = low ∧
      source.content s = form.extended n ++ source.content s' := by
  unfold readLength at h
  by_cases h126 : low = 126
  · rw [if_pos h126] at h
    obtain ⟨b, _, hn, hp⟩ := Source.bind_inv h
    obtain ⟨hc, hl⟩ := hexact.next_inv hn
    obtain ⟨rfl, rfl⟩ := pure_inv hp
    obtain ⟨hi, lo, rfl⟩ := List.length_eq_two.mp hl
    have hhi := hi.toNat_lt
    have hlo := lo.toNat_lt
    refine ⟨.medium, ?_, h126.symm, ?_⟩
    · exact show hi.toNat * 256 + lo.toNat < 65536 by omega
    · rw [hc]
      exact congrArg (· ++ _) (Bytes.uint16BE_toNat hi lo).symm
  rw [if_neg h126] at h
  by_cases h127 : low = 127
  · rw [if_pos h127] at h
    obtain ⟨b, _, hn, hp⟩ := Source.bind_inv h
    obtain ⟨hc, hl⟩ := hexact.next_inv hn
    obtain ⟨rfl, rfl⟩ := pure_inv hp
    have hlt := Bytes.natBE_lt b
    have hb := Bytes.uintBE_natBE b
    rw [hl] at hlt hb
    exact ⟨.long (Bytes.natBE b), ⟨hlt, rfl⟩, h127.symm,
      hc.trans (congrArg (· ++ _) hb.symm)⟩
  · rw [if_neg h127] at h
    obtain ⟨rfl, rfl⟩ := pure_inv h
    have hne : low.toNat ≠ 126 ∧ low.toNat ≠ 127 :=
      ⟨fun he => h126 (UInt8.toNat_inj.mp he), fun he => h127 (UInt8.toNat_inj.mp he)⟩
    exact ⟨.short, show low.toNat < 126 by omega, UInt8.ofNat_toNat, rfl⟩

/-- What was read as a frame is the encoding of one. -/
theorem readFrame_inv (hexact : source.Exact) {s s' : source.State} {opcode : UInt8}
    {payload : Bytes}
    (h : (readFrame : source.Reads ε (UInt8 × Bytes)) s = some (.ok (opcode, payload), s')) :
    ∃ f : Frame, f.opcode = opcode ∧ f.payload = payload ∧
      source.content s = f.encode ++ source.content s' := by
  obtain ⟨b0, s1, h0, h⟩ := Source.bind_inv h
  obtain ⟨b1, s2, h1, h⟩ := Source.bind_inv h
  obtain ⟨n, s3, hn, h⟩ := Source.bind_inv h
  obtain ⟨hlow, hb1⟩ := secondByte_inv ⟨b1.toNat, b1.toNat_lt⟩
  rw [UInt8.ofNat_toNat] at hlow hb1
  obtain ⟨form, hd, hform, hc3⟩ := readLength_inv hexact hlow hn
  have hc := (readByte_inv hexact h0).trans (congrArg (b0 :: ·) ((readByte_inv hexact h1).trans
    (congrArg (b1 :: ·) hc3)))
  have hnat : form.low n = (b1 &&& 0x7f).toNat := by
    rw [← hform, UInt8.toNat_ofNat']
    exact (Nat.mod_eq_of_lt (Nat.lt_trans (low_lt hd) (by decide))).symm
  by_cases hmask : b1 &&& 0x80 ≠ 0
  · rw [if_pos hmask] at h
    obtain ⟨key, s4, hk, h⟩ := Source.bind_inv h
    obtain ⟨raw, s5, hr, h⟩ := Source.bind_inv h
    obtain ⟨hck, hlk⟩ := hexact.next_inv hk
    obtain ⟨hcr, hlr⟩ := hexact.next_inv hr
    obtain ⟨he, rfl⟩ := pure_inv h
    obtain ⟨rfl, rfl⟩ := Prod.mk.inj he
    have hl := length_maskPayload raw key
    refine ⟨⟨b0, form, some ⟨key, hlk⟩, maskPayload raw key, by rw [hl, hlr]; exact hd⟩, rfl, rfl,
      ?_⟩
    rw [if_pos hmask, ← hnat] at hb1
    rw [hc, hck, hcr, hb1]
    simp only [Frame.encode, maskPayload_maskPayload, hl, hlr, List.cons_append, List.append_assoc]
  · rw [if_neg hmask] at h
    obtain ⟨raw, s4, hr, h⟩ := Source.bind_inv h
    obtain ⟨hcr, hlr⟩ := hexact.next_inv hr
    obtain ⟨he, rfl⟩ := pure_inv h
    obtain ⟨rfl, rfl⟩ := Prod.mk.inj he
    refine ⟨⟨b0, form, none, raw, by rw [hlr]; exact hd⟩, rfl, rfl, ?_⟩
    rw [if_neg hmask, ← hnat] at hb1
    rw [hc, hcr, hb1]
    simp only [Frame.encode, hlr, List.cons_append, List.append_assoc]

theorem pass_inv (hexact : source.Exact) {pongMask : Sized 4} {s s' : source.State} {p : Pass}
    (h : (pass pongMask : source.Reads ε Pass) s = some (.ok p, s')) :
    ∃ f : Frame, p = passOf pongMask f.opcode f.payload ∧
      source.content s = f.encode ++ source.content s' := by
  obtain ⟨⟨opcode, payload⟩, _, hf, hp⟩ := Source.bind_inv h
  obtain ⟨rfl, rfl⟩ := pure_inv hp
  obtain ⟨f, rfl, rfl, hc⟩ := readFrame_inv hexact hf
  exact ⟨f, rfl, hc⟩

theorem passOf_closed {pongMask : Sized 4} {opcode : UInt8} {payload : Bytes}
    (h : passOf pongMask opcode payload ≠ .closed) : opcode ≠ 0x8 := by
  intro he
  exact h (by rw [passOf, if_pos he])

/-- The turns of a run are those of the frames it has read. -/
theorem frames_of_passes (hexact : source.Exact) {masks : Nat → Sized 4} {i : Nat}
    {s s' : source.State} {ps : List Pass} (h : Passes masks i s ps s') :
    ∃ fs : List Frame, ps = passesOf masks i fs ∧ (∀ f ∈ fs, f.opcode ≠ 0x8) ∧
      source.content s = fs.flatMap Frame.encode ++ source.content s' := by
  induction h with
  | nil => exact ⟨[], rfl, by simp, rfl⟩
  | cons hp hne _ ih =>
      obtain ⟨f, rfl, hc⟩ := pass_inv hexact hp
      obtain ⟨fs, rfl, hopen, hcs⟩ := ih
      refine ⟨f :: fs, rfl, ?_, ?_⟩
      · intro g hg
        rcases List.mem_cons.mp hg with rfl | hg
        · exact passOf_closed hne
        · exact hopen g hg
      · rw [hc, hcs, List.flatMap_cons, List.append_assoc]

end

/-! ## Pongs -/

/-- What is written is a single masked pong frame with the payload of the ping. -/
def Answers (ping written : Bytes) : Prop :=
  ∃ f : Frame, f.b0 = 0x8a ∧ f.maskKey.isSome = true ∧ f.payload = ping ∧ f.encode = written

/-- Whatever the loop has written so far answers the pings. -/
def AnswersWell (masks : Nat → Sized 4) (s : OpenSocket) : Prop :=
  ∀ ps s', @Passes OpenSocket.source masks 0 s ps s' →
    ∀ ping written, .answered ping written ∈ ps → Answers ping written

/-- Every ping that whole frames lead up to has at most 125 bytes. -/
def SmallPings (stream : Bytes) : Prop :=
  ∀ (fs : List Frame) (ping : Frame), (∀ f ∈ fs, f.opcode ≠ 0x8) → ping.opcode = 0x9 →
    fs.flatMap Frame.encode ++ ping.encode <+: stream → ping.payload.length ≤ 125

/-- A pong is well formed exactly where its length fits seven bits. Another form of the
length would take bytes that a pong does not have. -/
theorem answers_pong_iff (pongMask : Sized 4) (payload : Bytes) :
    Answers payload (pong pongMask payload) ↔ payload.length ≤ 125 := by
  constructor
  · intro h
    obtain ⟨⟨b0, form, maskKey, _, fits⟩, _, hmask, rfl, he⟩ := h
    cases maskKey with
    | none => cases hmask
    | some key =>
        have hl := congrArg List.length he
        simp only [Frame.encode, pong, List.length_cons, List.length_append, length_maskPayload,
          key.property, pongMask.property, List.length_nil] at hl
        cases form with
        | short => exact Nat.le_of_lt_succ fits
        | medium =>
            simp only [LengthForm.extended, Bytes.uint16BE, List.length_cons, List.length_nil] at hl
            omega
        | long declared =>
            simp only [LengthForm.extended, Bytes.length_uintBE] at hl
            omega
  · intro h
    exact ⟨⟨0x8a, .short, some pongMask, payload, Nat.lt_succ_of_le h⟩, rfl, rfl, rfl, rfl⟩

theorem passOf_ping (pongMask : Sized 4) {opcode : UInt8} (h : opcode = 0x9) (payload : Bytes) :
    passOf pongMask opcode payload = .answered payload (pong pongMask payload) := by
  rw [passOf, if_neg (by rw [h]; decide), if_pos h]

theorem passOf_answered {pongMask : Sized 4} {opcode : UInt8} {payload ping written : Bytes}
    (h : passOf pongMask opcode payload = .answered ping written) :
    opcode = 0x9 ∧ ping = payload ∧ written = pong pongMask payload := by
  unfold passOf at h
  split at h
  · cases h
  split at h
  · next h9 =>
      cases h
      exact ⟨h9, rfl, rfl⟩
  split at h
  · cases h
  split at h <;> cases h

/-- A pong of a run answers one of the pings among its frames. -/
theorem mem_passesOf {masks : Nat → Sized 4} {i : Nat} {fs : List Frame} {ping written : Bytes}
    (h : .answered ping written ∈ passesOf masks i fs) :
    ∃ (before after : List Frame) (f : Frame) (pongMask : Sized 4), fs = before ++ f :: after ∧
      f.opcode = 0x9 ∧ f.payload = ping ∧ written = pong pongMask ping := by
  induction fs generalizing i with
  | nil => cases h
  | cons f fs ih =>
      rcases List.mem_cons.mp h with h | h
      · obtain ⟨h9, rfl, rfl⟩ := passOf_answered h.symm
        exact ⟨[], fs, f, masks i, rfl, h9, rfl, rfl⟩
      · obtain ⟨before, after, g, pongMask, rfl, hg⟩ := ih h
        exact ⟨f :: before, after, g, pongMask, rfl, hg⟩

theorem passesOf_append (masks : Nat → Sized 4) (i : Nat) (fs gs : List Frame) :
    passesOf masks i (fs ++ gs) = passesOf masks i fs ++ passesOf masks (i + fs.length) gs := by
  induction fs generalizing i with
  | nil => rfl
  | cons f fs ih =>
      rw [List.cons_append, passesOf, ih, passesOf, List.cons_append, List.length_cons,
        Nat.add_assoc, Nat.add_comm 1]

/-- Whatever the server sends and however it is cut, all pongs are well formed exactly when
no ping is longer than 125 bytes. -/
theorem answersWell_iff (masks : Nat → Sized 4) (s : OpenSocket) :
    AnswersWell masks s ↔ SmallPings s.content := by
  constructor
  · intro h fs ping hopen h9 hp
    obtain ⟨rest, hrest⟩ := hp
    have hall : ∀ f ∈ fs ++ [ping], f.opcode ≠ 0x8 := by
      intro f hf
      rcases List.mem_append.mp hf with hf | hf
      · exact hopen f hf
      · rw [List.mem_singleton.mp hf, h9]
        decide
    have hc : OpenSocket.source.content s = (fs ++ [ping]).flatMap Frame.encode ++ rest := by
      rw [List.flatMap_append, List.flatMap_singleton, hrest]
      rfl
    obtain ⟨s', hps, -⟩ := passes_of_frames masks hall 0 hc
    refine (answers_pong_iff (masks (0 + fs.length)) ping.payload).mp (h _ s' hps _ _ ?_)
    rw [passesOf_append, passesOf, passOf_ping _ h9]
    simp
  · intro h ps s' hps ping written hm
    obtain ⟨fs, rfl, hopen, hc⟩ := frames_of_passes openSocket_exact hps
    obtain ⟨before, after, f, pongMask, rfl, h9, rfl, rfl⟩ := mem_passesOf hm
    refine (answers_pong_iff pongMask f.payload).mpr
      (h before f (fun g hg => hopen g (List.mem_append_left _ hg)) h9 ?_)
    refine ⟨after.flatMap Frame.encode ++ OpenSocket.source.content s', ?_⟩
    rw [List.flatMap_append, List.flatMap_cons] at hc
    simp only [List.append_assoc] at hc ⊢
    exact hc.symm

/-- A ping of 126 bytes. The pong declares an extended length and does not send it. -/
def longPing : Frame :=
  ⟨0x89, .medium, none, List.replicate 126 0, by rw [List.length_replicate]; decide⟩

theorem long_ping_breaks_pong :
    ¬ ∀ (masks : Nat → Sized 4) (s : OpenSocket), AnswersWell masks s := by
  intro h
  have hsmall := (answersWell_iff _ _).mp
    (h (fun _ => ⟨[1, 2, 3, 4], rfl⟩) { schedule := [some longPing.encode] })
  have hle := hsmall [] longPing (by simp) (by decide) ⟨[], by simp [OpenSocket.content]⟩
  have hlen : longPing.payload.length = 126 := List.length_replicate
  omega

end DshClashProxy.Core.WebSocket
