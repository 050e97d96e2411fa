import DshClashProxy.Go.Reader

/-!
# Connections of Go's net package

A connection takes what is written to it and hands out what comes in. A process makes its calls
one after another; the history keeps what each of them returned. The two directions of a
connection share nothing, so a process that calls it from two goroutines is such a sequence too.
-/
namespace DshClashProxy.Go

open Js

/-- How a write comes out: nothing is missing, or an error stops it after so many bytes. -/
abbrev Fate := Option (Nat × Error)

/-- What `Write` returns. -/
structure Written where
  n : Nat
  error : Option Error
  deriving DecidableEq

/-- All of it was taken. -/
def Written.whole (p : Bytes) : Written := ⟨p.length, none⟩

/-- What a write of these bytes returns. -/
def Fate.written (fate : Fate) (p : Bytes) : Written :=
  match fate with
  | none => .whole p
  | some (n, e) => ⟨min n p.length, some e⟩

/-- What `Read` comes to. -/
inductive Got where
  | bytes (b : Bytes) (error : Option Error)
  | panic
  deriving DecidableEq

/-- A stream: what it has taken, and what it has still to hand out. -/
structure Stream where
  sent : Bytes := []
  incoming : Reader
  deriving DecidableEq

namespace Stream

def write (s : Stream) (fate : Fate) (p : Bytes) : Written × Stream :=
  let w := fate.written p
  (w, { s with sent := s.sent ++ p.take w.n })

def read (s : Stream) (size : Nat) : Got × Stream :=
  let (b, e, r) := s.incoming.read size
  (.bytes b e, { s with incoming := r })

/-- Let a program read what comes in. -/
def reads {α : Type} (s : Stream) (p : Reads α) : Except Fault α × Stream :=
  let (result, r) := p s.incoming
  (result, { s with incoming := r })

@[simp] theorem write_incoming (s : Stream) (fate : Fate) (p : Bytes) :
    (s.write fate p).2.incoming = s.incoming := rfl

@[simp] theorem reads_sent {α : Type} (s : Stream) (p : Reads α) :
    (s.reads p).2.sent = s.sent := rfl

/-- What a read returns of what comes in, and what it leaves. -/
theorem read_spec (s : Stream) (size : Nat) :
    ∃ b e s', s.read size = (.bytes b e, s') ∧ s.incoming.content = b ++ s'.incoming.content ∧
      (e.isSome = true → s'.incoming.content = []) := by
  obtain ⟨b, e, r, hr, -, hc, -, he⟩ := s.incoming.read_spec size
  refine ⟨b, e, { s with incoming := r }, by rw [read, hr], hc, fun hs => ?_⟩
  obtain ⟨e', rfl⟩ := Option.isSome_iff_exists.mp hs
  exact (he e' rfl).2

end Stream

/-- What a program reads off a front of its stream: a front of the rest is left. -/
theorem Exactly.of_front {α : Type} {p : Reads α} {front back : Bytes} {a b : α}
    (h : Exactly p front (.ok a)) {r r' : Reader} (hr : r.content <+: front ++ back)
    (hp : p r = (.ok b, r')) : b = a ∧ r'.content <+: back := by
  have hcut : ∀ rest, front = r.content ++ rest → rest = [] := by
    intro rest hf
    by_contra hne
    obtain ⟨e, r'', he⟩ := h.needs r rest hf hne
    cases hp.symm.trans he
  have htaken : ∀ rest, r.content = front ++ rest → b = a ∧ r'.content = rest := by
    intro rest hc
    obtain ⟨r'', ha, hb⟩ := h.takes r rest hc
    obtain ⟨he, rfl⟩ := Prod.mk.inj (hp.symm.trans ha)
    exact ⟨Except.ok.inj he, hb.content⟩
  obtain ⟨later, hlater⟩ := hr
  rcases List.append_eq_append_iff.mp hlater with ⟨mid, hfront, -⟩ | ⟨mid, hc, hback⟩
  · have hnil := hcut mid hfront
    obtain ⟨ha, hrest⟩ := htaken [] (by rw [hfront, hnil, List.append_nil, List.append_nil])
    exact ⟨ha, by rw [hrest]; exact List.nil_prefix⟩
  · obtain ⟨ha, hrest⟩ := htaken mid hc
    exact ⟨ha, by rw [hrest, hback]; exact List.prefix_append _ _⟩

/-- The two calls of a connection, over the state it keeps. -/
structure Conn (σ : Type) where
  write : σ → Fate → Bytes → Written × σ
  read : σ → Nat → Got × σ

inductive Call where
  | write (p : Bytes) (fate : Fate)
  | read (size : Nat)
  deriving DecidableEq

/-- A process that holds a connection. -/
structure Process (σ : Type) where
  conn : σ
  /-- History: the writes in order, with what they returned. -/
  written : List (Bytes × Written) := []
  /-- History: what the reads returned. -/
  got : List (Bytes × Option Error) := []
  crashed : Bool := false

/-- The bytes that these writes were given. -/
def given (written : List (Bytes × Written)) : Bytes := written.flatMap Prod.fst

/-- The bytes that these writes say were taken. -/
def accepted (written : List (Bytes × Written)) : Bytes :=
  written.flatMap fun w => w.1.take w.2.n

/-- The bytes that these reads returned. -/
def returned (got : List (Bytes × Option Error)) : Bytes := got.flatMap Prod.fst

namespace Process

variable {σ : Type} (C : Conn σ)

/-- One call. After a panic there are no more. -/
def step (m : Process σ) (call : Call) : Process σ :=
  if m.crashed then m
  else
    match call with
    | .write p fate =>
        let (w, conn) := C.write m.conn fate p
        { m with conn, written := m.written ++ [(p, w)] }
    | .read size =>
        match C.read m.conn size with
        | (.panic, conn) => { m with conn, crashed := true }
        | (.bytes b e, conn) => { m with conn, got := m.got ++ [(b, e)] }

def run (m : Process σ) (calls : List Call) : Process σ := calls.foldl (step C) m

theorem run_snoc (m : Process σ) (calls : List Call) (call : Call) :
    m.run C (calls ++ [call]) = (m.run C calls).step C call := by
  rw [run, List.foldl_append]
  rfl

variable {C}

theorem step_crashed {m : Process σ} (h : m.crashed = true) (call : Call) :
    m.step C call = m := if_pos h

theorem step_write {m : Process σ} (h : m.crashed = false) (p : Bytes) (fate : Fate) :
    m.step C (.write p fate) =
      { m with conn := (C.write m.conn fate p).2,
               written := m.written ++ [(p, (C.write m.conn fate p).1)] } := by
  rw [step, if_neg (by simp [h])]

theorem step_read {m : Process σ} (h : m.crashed = false) {size : Nat} {b : Bytes}
    {e : Option Error} {conn : σ} (hr : C.read m.conn size = (.bytes b e, conn)) :
    m.step C (.read size) = { m with conn, got := m.got ++ [(b, e)] } := by
  rw [step, if_neg (by simp [h])]
  simp only [hr]

theorem step_panic {m : Process σ} (h : m.crashed = false) {size : Nat} {conn : σ}
    (hr : C.read m.conn size = (.panic, conn)) :
    m.step C (.read size) = { m with conn, crashed := true } := by
  rw [step, if_neg (by simp [h])]
  simp only [hr]

variable (C)

/-- What every call keeps holds after any calls. -/
theorem run_keeps {P : Process σ → Prop} (hstep : ∀ m call, P m → P (m.step C call))
    {m : Process σ} (h : P m) (calls : List Call) : P (m.run C calls) := by
  induction calls generalizing m with
  | nil => exact h
  | cons call rest ih => exact ih (hstep m call h)

end Process

@[simp] theorem accepted_snoc (written : List (Bytes × Written)) (p : Bytes) (w : Written) :
    accepted (written ++ [(p, w)]) = accepted written ++ p.take w.n := by
  simp [accepted]

@[simp] theorem given_snoc (written : List (Bytes × Written)) (p : Bytes) (w : Written) :
    given (written ++ [(p, w)]) = given written ++ p := by
  simp [given]

@[simp] theorem returned_snoc (got : List (Bytes × Option Error)) (b : Bytes)
    (e : Option Error) : returned (got ++ [(b, e)]) = returned got ++ b := by
  simp [returned]

/-- Writes that were taken whole took all they were given. -/
theorem accepted_of_whole {written : List (Bytes × Written)}
    (h : ∀ w ∈ written, w.2 = .whole w.1) : accepted written = given written := by
  induction written with
  | nil => rfl
  | cons w rest ih =>
      obtain ⟨hw, hrest⟩ := List.forall_mem_cons.mp h
      change w.1.take w.2.n ++ accepted rest = w.1 ++ given rest
      rw [ih hrest, hw, Written.whole, List.take_length]

end DshClashProxy.Go
