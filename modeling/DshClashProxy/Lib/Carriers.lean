import DshClashProxy.Lib.Messages
import Mathlib.Algebra.Group.Nat.Defs
import Mathlib.Logic.Function.Basic

/-!
# Pipes over a carrier

A carrier takes blocks in two directions and hands out what has arrived. It moves on its own, and
loses and reorders nothing. Two ends that send and receive over a carrier do what they do over two
plain pipes, in which what the carrier still holds is in flight.
-/
namespace DshClashProxy.Lib.Carriers

open Lib.ByteSource Lib.Messages

inductive Way where
  | up
  | down
  deriving DecidableEq

/-- Two streams, one for each way. `Holds s c` says that `c` is still to be read in `s`. -/
structure Carrier (α : Type) where
  State : Type
  Move : Type
  start : State
  Holds : State → (Way → List α) → Prop
  /-- The blocks that can be sent. -/
  Fits : List α → Prop
  /-- What has arrived and has not been taken. -/
  ready : Way → State → List α
  push : Way → State → List α → State
  take : Way → State → Nat → State
  move : State → Move → State
  holds_start : Holds start fun _ => []
  ready_front : ∀ {s c} w, Holds s c → ready w s <+: c w
  holds_push : ∀ {s c b} w, Holds s c → Fits b →
    Holds (push w s b) (Function.update c w (c w ++ b))
  holds_take : ∀ {s c n} w, Holds s c → n ≤ (ready w s).length →
    Holds (take w s n) (Function.update c w ((c w).drop n))
  holds_move : ∀ {s c} m, Holds s c → Holds (move s m) c
  /-- Everything arrives in the end. -/
  arrives : ∀ {s c}, Holds s c → ∃ ms : List Move, ∀ w, ready w (ms.foldl move s) = c w

namespace Carrier
variable {α : Type} (k : Carrier α)

/-- Blocks of any practical length can be sent. -/
def Roomy : Prop := ∀ b : List α, b.length < 2 ^ 53 → k.Fits b

theorem holds_moves {s : k.State} {c : Way → List α} (h : k.Holds s c) (ms : List k.Move) :
    k.Holds (ms.foldl k.move s) c := by
  induction ms generalizing s with
  | nil => exact h
  | cons m rest ih => exact ih (k.holds_move m h)

/-- What is taken of that which has arrived stands in front of what is left. -/
theorem take_ready {s : k.State} {c : Way → List α} (w : Way) (h : k.Holds s c) (n : Nat) :
    (k.ready w s).take n ++ (c w).drop ((k.ready w s).take n).length = c w := by
  have hfront : (k.ready w s).take n <+: c w :=
    (List.take_prefix n _).trans (k.ready_front w h)
  obtain ⟨more, hmore⟩ := hfront
  rw [← hmore, List.drop_left]

end Carrier

/-! ## Plain traffic -/

section
variable {α : Type}

/-- What is done with a carrier: blocks are written, some of what has arrived is read, and it moves
on its own. -/
inductive Op (k : Carrier α) where
  | write (w : Way) (b : List α) (fits : k.Fits b)
  | read (w : Way) (n : Nat)
  | move (m : k.Move)

/-- A carrier in use, with what has been written and read so far. -/
structure Traffic (k : Carrier α) where
  link : k.State := k.start
  written : Way → List α := fun _ => []
  read : Way → List α := fun _ => []

variable {k : Carrier α}

def Traffic.step (t : Traffic k) : Op k → Traffic k
  | .write w b _ =>
      { t with link := k.push w t.link b,
               written := Function.update t.written w (t.written w ++ b) }
  | .read w n =>
      { t with link := k.take w t.link ((k.ready w t.link).take n).length,
               read := Function.update t.read w (t.read w ++ (k.ready w t.link).take n) }
  | .move m => { t with link := k.move t.link m }

def Traffic.run (t : Traffic k) (ops : List (Op k)) : Traffic k := ops.foldl Traffic.step t

/-- What was written was read, or is still to be read. -/
def Traffic.Conserves (t : Traffic k) (content : Way → List α) : Prop :=
  k.Holds t.link content ∧ ∀ w, t.written w = t.read w ++ content w

theorem Traffic.Conserves.step {t : Traffic k} {content : Way → List α} (h : t.Conserves content)
    (op : Op k) : ∃ content, (t.step op).Conserves content := by
  obtain ⟨hholds, hsame⟩ := h
  cases op with
  | write w b fits =>
      refine ⟨_, k.holds_push w hholds fits, fun w' => ?_⟩
      by_cases hw : w' = w
      · subst hw
        simp only [Traffic.step, Function.update_self, hsame w', List.append_assoc]
      · simp only [Traffic.step, Function.update_of_ne hw, hsame w']
  | read w n =>
      refine ⟨_, k.holds_take w hholds (List.length_take_le' n _), fun w' => ?_⟩
      by_cases hw : w' = w
      · subst hw
        simp only [Traffic.step, Function.update_self, hsame w', List.append_assoc]
        rw [k.take_ready w' hholds]
      · simp only [Traffic.step, Function.update_of_ne hw, hsame w']
  | move m => exact ⟨content, k.holds_move m hholds, hsame⟩

/-- Nothing is lost, made up or reordered in any run. -/
theorem Traffic.run_conserves {t : Traffic k} {content : Way → List α} (h : t.Conserves content)
    (ops : List (Op k)) : ∃ content, (t.run ops).Conserves content := by
  induction ops generalizing t content with
  | nil => exact ⟨content, h⟩
  | cons op rest ih =>
      obtain ⟨content', h'⟩ := h.step op
      exact ih h'

theorem Traffic.conserves_start : ({} : Traffic k).Conserves fun _ => [] :=
  ⟨k.holds_start, fun _ => rfl⟩

end

/-! ## A stream in pieces -/

/-- What has arrived each way, and what is under way. -/
structure Stream (α : Type) where
  arrived : Way → List α := fun _ => []
  underway : Way → List α := fun _ => []

variable {α : Type}

/-- The next piece arrives, this long. -/
def Stream.arrive (s : Stream α) (w : Way) (n : Nat) : Stream α where
  arrived := Function.update s.arrived w (s.arrived w ++ (s.underway w).take n)
  underway := Function.update s.underway w ((s.underway w).drop n)

theorem Stream.arrive_content (s : Stream α) (w w' : Way) (n : Nat) :
    (s.arrive w n).arrived w' ++ (s.arrive w n).underway w' = s.arrived w' ++ s.underway w' := by
  by_cases hw : w' = w
  · subst hw
    simp only [arrive, Function.update_self, List.append_assoc, List.take_append_drop]
  · simp only [arrive, Function.update_of_ne hw]

/-- A connection that delivers in order, in pieces of any size. -/
def stream (α : Type) : Carrier α where
  State := Stream α
  Move := Way × Nat
  start := {}
  Holds s c := ∀ w, c w = s.arrived w ++ s.underway w
  Fits _ := True
  ready w s := s.arrived w
  push w s b := { s with underway := Function.update s.underway w (s.underway w ++ b) }
  take w s n := { s with arrived := Function.update s.arrived w ((s.arrived w).drop n) }
  move s m := s.arrive m.1 m.2
  holds_start _ := rfl
  ready_front w h := by
    rw [h w]
    exact List.prefix_append _ _
  holds_push := by
    intro s c b w h _ w'
    by_cases hw : w' = w
    · subst hw
      simp only [Function.update_self, h w', List.append_assoc]
    · simp only [Function.update_of_ne hw, h w']
  holds_take := by
    intro s c n w h hn w'
    by_cases hw : w' = w
    · subst hw
      simp only [Function.update_self, h w', List.drop_append_of_le_length hn]
    · simp only [Function.update_of_ne hw, h w']
  holds_move := by
    intro s c m h w
    rw [h w, Stream.arrive_content]
  arrives := by
    intro s c h
    refine ⟨[(.up, (s.underway .up).length), (.down, (s.underway .down).length)], fun w => ?_⟩
    rw [h w]
    cases w <;> simp [Stream.arrive]

theorem roomy_stream : (stream α).Roomy := fun _ _ => trivial

/-! ## Reads of what has arrived -/

section
variable {ε β γ : Type}

/-- What a program returns from a list, and what it leaves of it. -/
def onList (p : (Source.ofList α).Reads ε β) (a : List α) : Option (Except ε β × List α) := p a

theorem onList_bind (p : (Source.ofList α).Reads ε β) (f : β → (Source.ofList α).Reads ε γ)
    (a : List α) :
    onList (p >>= f) a = match onList p a with
      | some (.ok b, rest) => onList (f b) rest
      | some (.error e, rest) => some (.error e, rest)
      | none => none := by
  change Option.bind (p a) _ = _
  unfold onList
  rcases p a with _ | ⟨_ | _, _⟩ <;> rfl

theorem onList_next {count : Nat} {a : List α} (h : count ≤ a.length) :
    onList (Source.next count : (Source.ofList α).Reads ε (List α)) a =
      some (.ok (a.take count), a.drop count) := by
  change (if count ≤ a.length then some (a.take count, a.drop count) else none).map _ = _
  rw [if_pos h]
  rfl

/-- A program that consumes a front leaves what is behind it. -/
theorem onList_consumes {p : (Source.ofList α).Reads ε β} {front : List α} {b : β}
    (h : Source.Consumes p front b) (rest : List α) :
    onList p (front ++ rest) = some (.ok b, rest) := by
  obtain ⟨s, hs, hc⟩ := h (front ++ rest) rest rfl
  obtain rfl : s = rest := hc
  exact hs

/-- A program that has returned has used up a front of the stream, and returns the same when more
is behind it. -/
def Extends (p : (Source.ofList α).Reads ε β) : Prop :=
  ∀ a r rest, onList p a = some (r, rest) →
    ∃ used, a = used ++ rest ∧ ∀ more, onList p (a ++ more) = some (r, rest ++ more)

theorem extends_pure (b : β) : Extends (pure b : (Source.ofList α).Reads ε β) := by
  intro a r rest h
  cases h
  exact ⟨[], rfl, fun _ => rfl⟩

theorem extends_throw (e : ε) : Extends (throw e : (Source.ofList α).Reads ε β) := by
  intro a r rest h
  cases h
  exact ⟨[], rfl, fun _ => rfl⟩

theorem extends_never : Extends (fun _ => none : (Source.ofList α).Reads ε β) :=
  fun _ _ _ h => by cases h

theorem extends_next (count : Nat) :
    Extends (Source.next count : (Source.ofList α).Reads ε (List α)) := by
  intro a r rest h
  by_cases hc : count ≤ a.length
  · rw [onList_next hc] at h
    cases h
    refine ⟨a.take count, (List.take_append_drop count a).symm, fun more => ?_⟩
    rw [onList_next (by rw [List.length_append]; omega), List.take_append_of_le_length hc,
      List.drop_append_of_le_length hc]
  · change (if count ≤ a.length then some (a.take count, a.drop count) else none).map _ = _ at h
    rw [if_neg hc] at h
    cases h

theorem Extends.bind {p : (Source.ofList α).Reads ε β} {f : β → (Source.ofList α).Reads ε γ}
    (hp : Extends p) (hf : ∀ b, Extends (f b)) : Extends (p >>= f) := by
  intro a r rest h
  rw [onList_bind] at h
  split at h
  · next b s hs =>
      obtain ⟨used, rfl, hmore⟩ := hp a _ s hs
      obtain ⟨used', rfl, hmore'⟩ := hf b s r rest h
      refine ⟨used ++ used', (List.append_assoc _ _ _).symm, fun more => ?_⟩
      rw [onList_bind, hmore more]
      exact hmore' more
  · next e s hs =>
      cases h
      obtain ⟨used, rfl, hmore⟩ := hp a _ _ hs
      refine ⟨used, rfl, fun more => ?_⟩
      rw [onList_bind, hmore more]
  · cases h

end

/-- The receiver of a codec reads so. -/
def Local {ε ι : Type} (c : Codec α ε ι) : Prop := ∀ d, Extends (c.decode d)

/-! ## The two ends over a carrier -/

section
variable {ε ι : Type} {c : Codec α ε ι}

/-- The pipe with this in flight. -/
def Pipe.carrying (p : Pipe c) (flight : List α) : Pipe c := { p with flight }

variable (k : Carrier α)

/-- What the sender makes of a message is one block. -/
def send (w : Way) (p : Pipe c) (s : k.State) (i : ι) : Pipe c × k.State :=
  match c.encode p.sender i with
  | none => (p, s)
  | some (b, sender) => ({ p with sender, sent := p.sent ++ [i] }, k.push w s b)

def sendAll (w : Way) (p : Pipe c) (s : k.State) (is : List ι) : Pipe c × k.State :=
  is.foldl (fun r i => send k w r.1 r.2 i) (p, s)

/-- The next message, if all of it has arrived. -/
def receive (w : Way) (p : Pipe c) (s : k.State) : Pipe c × k.State :=
  match onList (c.decode p.receiver) (k.ready w s) with
  | none => (p, s)
  | some (.error e, rest) =>
      ({ p with rejected := some e }, k.take w s ((k.ready w s).length - rest.length))
  | some (.ok (i, receiver), rest) =>
      ({ p with receiver, received := p.received ++ [i] },
        k.take w s ((k.ready w s).length - rest.length))

theorem receive_onList (p : Pipe c) :
    p.receive = match onList (c.decode p.receiver) p.flight with
      | none => p
      | some (.error e, flight) => { p with flight, rejected := some e }
      | some (.ok (i, receiver), flight) =>
          { p with receiver, flight, received := p.received ++ [i] } := rfl

/-- The messages of a codec fit the carrier. -/
def Fitting (c : Codec α ε ι) : Prop := ∀ e i b e', c.encode e i = some (b, e') → k.Fits b

variable {k}

/-- A send over the carrier is a send over the plain pipe. -/
theorem send_carrying (hfits : Fitting k c) {w : Way} {p : Pipe c} {s : k.State}
    {content : Way → List α} (h : k.Holds s content) (i : ι) :
    ∃ flight, k.Holds (send k w p s i).2 (Function.update content w flight) ∧
      Pipe.carrying (send k w p s i).1 flight = (Pipe.carrying p (content w)).send i := by
  unfold send Pipe.send
  cases he : c.encode p.sender i with
  | none =>
      refine ⟨content w, ?_, ?_⟩
      · rw [Function.update_eq_self]
        exact h
      · simp only [Pipe.carrying, he]
  | some r =>
      obtain ⟨b, sender⟩ := r
      refine ⟨content w ++ b, k.holds_push w h (hfits _ _ _ _ he), ?_⟩
      simp only [Pipe.carrying, he]

theorem sendAll_carrying (hfits : Fitting k c) {w : Way} {p : Pipe c} {s : k.State}
    {content : Way → List α} (h : k.Holds s content) (is : List ι) :
    ∃ flight, k.Holds (sendAll k w p s is).2 (Function.update content w flight) ∧
      Pipe.carrying (sendAll k w p s is).1 flight = (Pipe.carrying p (content w)).sendAll is := by
  induction is generalizing p s content with
  | nil =>
      refine ⟨content w, ?_, rfl⟩
      rw [Function.update_eq_self]
      exact h
  | cons i rest ih =>
      obtain ⟨flight, hone, hsend⟩ := send_carrying (p := p) hfits h i
      obtain ⟨last, hall, hsent⟩ := ih (p := (send k w p s i).1) hone
      rw [Function.update_idem] at hall
      rw [Function.update_self, hsend] at hsent
      exact ⟨last, hall, hsent⟩

/-- A receive over the carrier waits, or is one over the plain pipe. -/
theorem receive_carrying (hlocal : Local c) {w : Way} {p : Pipe c} {s : k.State}
    {content : Way → List α} (h : k.Holds s content) :
    receive k w p s = (p, s) ∨
      ∃ flight, k.Holds (receive k w p s).2 (Function.update content w flight) ∧
        Pipe.carrying (receive k w p s).1 flight = (Pipe.carrying p (content w)).receive := by
  have htake : ∀ {r rest}, onList (c.decode p.receiver) (k.ready w s) = some (r, rest) →
      ∃ flight, onList (c.decode p.receiver) (content w) = some (r, flight) ∧
        k.Holds (k.take w s ((k.ready w s).length - rest.length))
          (Function.update content w flight) := by
    intro r rest hd
    obtain ⟨more, hmore⟩ := k.ready_front w h
    obtain ⟨used, hused, hext⟩ := hlocal _ _ _ _ hd
    have hn : (k.ready w s).length - rest.length = used.length := by
      rw [hused, List.length_append, Nat.add_sub_cancel]
    refine ⟨rest ++ more, ?_, ?_⟩
    · rw [← hmore]
      exact hext more
    · have hholds := k.holds_take w (n := used.length) h
        (by rw [hused, List.length_append]; omega)
      rwa [← hmore, hused, List.append_assoc, List.drop_left, ← hn] at hholds
  rw [receive_onList]
  unfold receive
  cases hd : onList (c.decode p.receiver) (k.ready w s) with
  | none => exact .inl rfl
  | some result =>
      obtain ⟨r, rest⟩ := result
      obtain ⟨flight, hflight, hholds⟩ := htake hd
      cases r with
      | error e => exact .inr ⟨flight, hholds, by simp only [Pipe.carrying, hflight]⟩
      | ok message =>
          obtain ⟨i, receiver⟩ := message
          exact .inr ⟨flight, hholds, by simp only [Pipe.carrying, hflight]⟩

end

end DshClashProxy.Lib.Carriers
