import DshClashProxy.Js.Buffer

/-!
# Readers of Go's io package

A reader hands out its stream in pieces of any size, and its last piece with or without the
error that ends it. `io.ReadFull` and `io.CopyN` call it until they have what they need, so what
they return depends on the stream alone.
-/
namespace DshClashProxy.Go

open Js

inductive Error where
  | eof
  | unexpectedEof
  | other (message : Text)
  deriving DecidableEq

/-- How a call may end other than with a value. -/
inductive Fault where
  | error (e : Error)
  | panic
  deriving DecidableEq

/-- An `io.Reader`: the pieces it has still to return, then its error. An eager reader returns
the error together with the last piece. -/
structure Reader where
  pieces : List Bytes
  final : Error := .eof
  eager : Bool := false
  deriving DecidableEq

namespace Reader

/-- The stream still to be read. -/
def content (r : Reader) : Bytes := r.pieces.flatten

/-- `Read` with a buffer of this size. -/
def read (r : Reader) (size : Nat) : Bytes × Option Error × Reader :=
  match r.pieces with
  | [] => ([], some r.final, r)
  | piece :: rest =>
      if piece.length ≤ size then
        (piece, if r.eager && rest.isEmpty then some r.final else none, { r with pieces := rest })
      else (piece.take size, none, { r with pieces := piece.drop size :: rest })

/-- What is left to read, counted so that every read without an error makes it smaller. -/
def left (r : Reader) : Nat := r.pieces.length + r.content.length

theorem left_read {r r' : Reader} {size : Nat} (hs : 0 < size) {b : Bytes}
    (h : r.read size = (b, none, r')) : r'.left < r.left := by
  unfold read at h
  split at h
  · cases h
  · next piece rest hp =>
      split at h
      · obtain ⟨-, -, rfl⟩ := Prod.mk.inj h |>.imp_right Prod.mk.inj
        simp only [left, content, hp, List.length_cons, List.flatten_cons, List.length_append]
        omega
      · obtain ⟨-, -, rfl⟩ := Prod.mk.inj h |>.imp_right Prod.mk.inj
        simp only [left, content, hp, List.length_cons, List.flatten_cons, List.length_append,
          List.length_drop]
        omega

end Reader

/-- How much a loop asks for at a time when this much is missing. -/
structure Block where
  ask : Nat → Nat
  pos : ∀ missing, 0 < missing → 0 < ask missing
  le : ∀ missing, ask missing ≤ missing

/-- All that is missing. -/
def Block.whole : Block := ⟨id, fun _ h => h, fun _ => le_rfl⟩

/-- At most the buffer of `io.Discard`. -/
def Block.discard : Block := ⟨min 8192, fun _ h => lt_min (by decide) h, fun _ => min_le_right _ _⟩

namespace Reader

/-- Read up to this many bytes, block by block, until an error. -/
def gather (block : Block) (r : Reader) (count : Nat) : Bytes × Option Error × Reader :=
  if _h : count = 0 then ([], none, r)
  else
    match _hr : r.read (block.ask count) with
    | (b, some e, r') => (b, some e, r')
    | (b, none, r') =>
        let (b', e, r'') := gather block r' (count - b.length)
        (b ++ b', e, r'')
termination_by r.left
decreasing_by exact left_read (block.pos _ (Nat.pos_of_ne_zero _h)) _hr

/-- A reader that is further on in the same stream. -/
structure Behind (r r' : Reader) (content : Bytes) : Prop where
  content : r'.content = content
  final : r'.final = r.final

theorem read_spec (r : Reader) (size : Nat) :
    ∃ b e r', r.read size = (b, e, r') ∧ b.length ≤ size ∧ r.content = b ++ r'.content ∧
      r'.final = r.final ∧ (∀ e', e = some e' → e' = r.final ∧ r'.content = []) := by
  unfold read
  split
  · next hp =>
      refine ⟨[], some r.final, r, rfl, Nat.zero_le _, rfl, rfl, fun e' he => ?_⟩
      exact ⟨(Option.some.inj he).symm, by rw [content, hp]; rfl⟩
  · next piece rest hp =>
      split
      · next hle =>
          refine ⟨_, _, _, rfl, hle, by simp [content, hp], rfl, fun e' he => ?_⟩
          split at he
          · next hlast =>
              have hrest : rest = [] := by
                simp only [Bool.and_eq_true, List.isEmpty_iff] at hlast
                exact hlast.2
              exact ⟨(Option.some.inj he).symm, by simp [content, hrest]⟩
          · cases he
      · exact ⟨_, _, _, rfl, List.length_take_le _ _, by simp [content, hp, ← List.append_assoc],
          rfl, nofun⟩

/-- Where the stream reaches for the count, the loop gets its front; the error may have come
along with the last of it. -/
theorem gather_of_le (block : Block) (r : Reader) {count : Nat} (h : count ≤ r.content.length) :
    ∃ e r', r.gather block count = (r.content.take count, e, r') ∧
      r.Behind r' (r.content.drop count) := by
  induction hn : r.left using Nat.strongRecOn generalizing r count with
  | _ n ih =>
      by_cases h0 : count = 0
      · rw [gather, dif_pos h0, h0]
        exact ⟨none, r, rfl, rfl, rfl⟩
      · obtain ⟨b, e, r', hr, hlen, hc, hf, he⟩ := r.read_spec (block.ask count)
        have hle : b.length ≤ count := hlen.trans (block.le count)
        rw [gather, dif_neg h0]
        rw [hc, List.length_append] at h
        cases e with
        | some e =>
            have hnil := (he e rfl).2
            rw [hnil, List.append_nil] at hc
            rw [hnil, List.length_nil] at h
            have hcount : b.length = count := by omega
            split
            · next b₁ e₁ r₁ h₁ =>
                cases hr.symm.trans h₁
                exact ⟨some e, r', by rw [hc, ← hcount, List.take_length],
                  by rw [hnil, hc, ← hcount, List.drop_length], hf⟩
            · next h₁ => cases hr.symm.trans h₁
        | none =>
            have hleft := left_read (block.pos _ (Nat.pos_of_ne_zero h0)) hr
            have hle' : count - b.length ≤ r'.content.length := by omega
            obtain ⟨e, r'', hg, hb⟩ := ih _ (hn ▸ hleft) r' hle' rfl
            split
            · next h₁ => cases hr.symm.trans h₁
            · next b₁ r₁ h₁ =>
                cases hr.symm.trans h₁
                refine ⟨e, r'', ?_, ?_, hb.final.trans hf⟩
                · rw [hg, hc, List.take_append, List.take_of_length_le hle]
                · rw [hb.content, hc, List.drop_append, List.drop_of_length_le hle, List.nil_append]

/-- Where it does not, the loop gets all of it and the error that ends it. -/
theorem gather_of_lt (block : Block) (r : Reader) {count : Nat} (h : r.content.length < count) :
    ∃ r', r.gather block count = (r.content, some r.final, r') ∧ r.Behind r' [] := by
  induction hn : r.left using Nat.strongRecOn generalizing r count with
  | _ n ih =>
      have h0 : count ≠ 0 := by omega
      obtain ⟨b, e, r', hr, hlen, hc, hf, he⟩ := r.read_spec (block.ask count)
      rw [gather, dif_neg h0]
      rw [hc, List.length_append] at h
      cases e with
      | some e =>
          obtain ⟨rfl, hnil⟩ := he e rfl
          rw [hnil, List.append_nil] at hc
          split
          · next h₁ =>
              cases hr.symm.trans h₁
              exact ⟨r', by rw [hc], hnil, hf⟩
          · next h₁ => cases hr.symm.trans h₁
      | none =>
          have hleft := left_read (block.pos _ (Nat.pos_of_ne_zero h0)) hr
          have hlt : r'.content.length < count - b.length := by omega
          obtain ⟨r'', hg, hb⟩ := ih _ (hn ▸ hleft) r' hlt rfl
          split
          · next h₁ => cases hr.symm.trans h₁
          · next h₁ =>
              cases hr.symm.trans h₁
              exact ⟨r'', by rw [hg, hc, hf], hb.content, hb.final.trans hf⟩

end Reader

/-! ## Programs that read -/

/-- Code that reads from one reader. -/
abbrev Reads := ExceptT Fault (StateM Reader)

/-- `io.ReadFull` into a buffer of this size. -/
def readFull (count : Nat) : Reads Bytes := fun r =>
  let (b, e, r') := r.gather .whole count
  if count ≤ b.length then (.ok b, r')
  else if 0 < b.length ∧ e = some .eof then (.error (.error .unexpectedEof), r')
  else (.error (.error (e.getD .eof)), r')

/-- `io.CopyN` to `io.Discard`. -/
def discardN (count : Nat) : Reads Unit := fun r =>
  let (b, e, r') := r.gather .discard count
  if b.length = count then (.ok (), r') else (.error (.error (e.getD .eof)), r')

variable {α β : Type}

/-- The program ends in this way on every stream that starts with the front, leaves what is
behind it, and fails on a stream that ends inside it. -/
structure Exactly (p : Reads β) (front : Bytes) (result : Except Fault β) : Prop where
  takes : ∀ (r : Reader) rest, r.content = front ++ rest →
    ∃ r' : Reader, p r = (result, r') ∧ r.Behind r' rest
  needs : ∀ (r : Reader) rest, front = r.content ++ rest → rest ≠ [] →
    ∃ e r', p r = (.error (.error e), r')

theorem exactly_pure (b : β) : Exactly (pure b) [] (.ok b) where
  takes r _ h := ⟨r, rfl, h, rfl⟩
  needs _ _ h hne := absurd (List.append_eq_nil_iff.mp h.symm).2 hne

theorem exactly_throw (fault : Fault) : Exactly (throw fault : Reads β) [] (.error fault) where
  takes r _ h := ⟨r, rfl, h, rfl⟩
  needs _ _ h hne := absurd (List.append_eq_nil_iff.mp h.symm).2 hne

theorem bind_ok {p : Reads α} (f : α → Reads β) {r r' : Reader} {a : α}
    (h : p r = (.ok a, r')) : (p >>= f) r = f a r' := by
  change ExceptT.bindCont f (p r).1 (p r).2 = _
  rw [h]
  rfl

theorem bind_error {p : Reads α} (f : α → Reads β) {r r' : Reader} {fault : Fault}
    (h : p r = (.error fault, r')) : (p >>= f) r = (.error fault, r') := by
  change ExceptT.bindCont f (p r).1 (p r).2 = _
  rw [h]
  rfl

theorem Exactly.bind {p : Reads α} {f : α → Reads β} {front back : Bytes} {a : α}
    {result : Except Fault β} (hp : Exactly p front (.ok a)) (hf : Exactly (f a) back result) :
    Exactly (p >>= f) (front ++ back) result where
  takes r rest h := by
    rw [List.append_assoc] at h
    obtain ⟨r', hr, hb⟩ := hp.takes r _ h
    obtain ⟨r'', hr', hb'⟩ := hf.takes r' rest hb.content
    exact ⟨r'', (bind_ok f hr).trans hr', hb'.content, hb'.final.trans hb.final⟩
  needs r rest h hne := by
    rcases List.append_eq_append_iff.mp h with ⟨mid, hc, hback⟩ | ⟨mid, hfront, hrest⟩
    · -- the stream ends inside what the second program reads
      obtain ⟨r', hr, hb⟩ := hp.takes r mid hc
      obtain ⟨e, r'', hr'⟩ := hf.needs r' rest (by rw [hb.content, hback]) hne
      exact ⟨e, r'', (bind_ok f hr).trans hr'⟩
    · by_cases hmid : mid = []
      · rw [hmid, List.append_nil] at hfront
        obtain ⟨r', hr, hb⟩ := hp.takes r [] (by rw [hfront, List.append_nil])
        obtain ⟨e, r'', hr'⟩ := hf.needs r' rest (by rw [hb.content, hrest, hmid]; rfl) hne
        exact ⟨e, r'', (bind_ok f hr).trans hr'⟩
      · obtain ⟨e, r', hr⟩ := hp.needs r mid hfront hmid
        exact ⟨e, r', bind_error f hr⟩

/-- A program ends where its first step does. -/
theorem Exactly.bind_throw {p : Reads α} (f : α → Reads β) {front : Bytes} {fault : Fault}
    (hp : Exactly p front (.error fault)) : Exactly (p >>= f) front (.error fault) where
  takes r rest h := by
    obtain ⟨r', hr, hb⟩ := hp.takes r rest h
    exact ⟨r', bind_error f hr, hb⟩
  needs r rest h hne := by
    obtain ⟨e, r', hr⟩ := hp.needs r rest h hne
    exact ⟨e, r', bind_error f hr⟩

/-- A last step that reads nothing. -/
theorem Exactly.bind_nil {p : Reads α} {f : α → Reads β} {front : Bytes} {a : α}
    {result : Except Fault β} (hp : Exactly p front (.ok a)) (hf : Exactly (f a) [] result) :
    Exactly (p >>= f) front result := by
  have := hp.bind hf
  rwa [List.append_nil] at this

theorem exactly_readFull {front : Bytes} {count : Nat} (h : front.length = count) :
    Exactly (readFull count) front (.ok front) where
  takes r rest hc := by
    subst h
    have hle : front.length ≤ r.content.length := by rw [hc, List.length_append]; omega
    obtain ⟨e, r', hg, hb⟩ := r.gather_of_le .whole hle
    rw [hc, List.take_left, List.drop_left] at *
    exact ⟨r', by simp [readFull, hg], hb⟩
  needs r rest hc hne := by
    subst h
    have hlt : r.content.length < front.length := by
      have := List.length_pos_iff.mpr hne
      rw [hc, List.length_append]
      omega
    obtain ⟨r', hg, -⟩ := r.gather_of_lt .whole hlt
    simp only [readFull, hg, if_neg (not_le.mpr hlt)]
    split
    · exact ⟨_, r', rfl⟩
    · exact ⟨_, r', rfl⟩

theorem exactly_discardN {front : Bytes} {count : Nat} (h : front.length = count) :
    Exactly (discardN count) front (.ok ()) where
  takes r rest hc := by
    subst h
    have hle : front.length ≤ r.content.length := by rw [hc, List.length_append]; omega
    obtain ⟨e, r', hg, hb⟩ := r.gather_of_le .discard hle
    rw [hc, List.take_left, List.drop_left] at *
    exact ⟨r', by simp [discardN, hg], hb⟩
  needs r rest hc hne := by
    subst h
    have hlt : r.content.length < front.length := by
      have := List.length_pos_iff.mpr hne
      rw [hc, List.length_append]
      omega
    obtain ⟨r', hg, -⟩ := r.gather_of_lt .discard hlt
    simp only [discardN, hg, if_neg hlt.ne]
    exact ⟨_, r', rfl⟩

end DshClashProxy.Go
