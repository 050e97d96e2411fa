import DshClashProxy.Go.Conn

/-!
# io.Copy and two of them over one connection

`io.Copy` reads into a buffer and writes what it has read, until the source ends or either call
fails. Its calls are separate steps here, so two loops over one connection can take them in any
order. What a loop has passed on is a front of what its source returned, and all of it once the
loop has ended without an error.
-/
namespace DshClashProxy.Go

open Js

/-- Where `io.Copy` stands: before a read, before the write of what it has read, or at its end. -/
inductive Loop where
  | reading
  | writing (b : Bytes) (er : Option Error)
  | ended (err : Option Error)
  deriving DecidableEq

def errShortWrite : Error := .other "short write".toList

def errInvalidWrite : Error := .other "invalid write result".toList

/-- The size of the buffer that `io.Copy` allocates. -/
def copySize : Nat := 32 * 1024

namespace Loop

/-- What was read and is still to be written. -/
def held : Loop → Bytes
  | .writing b _ => b
  | _ => []

/-- What the error of a read makes of the loop. -/
def next : Option Error → Loop
  | none => .reading
  | some .eof => .ended none
  | some e => .ended (some e)

def afterRead (b : Bytes) (er : Option Error) : Loop :=
  if 0 < b.length then .writing b er else next er

def afterWrite (b : Bytes) (er : Option Error) (w : Written) : Loop :=
  if b.length < w.n then .ended (some (w.error.getD errInvalidWrite))
  else
    match w.error with
    | some ew => .ended (some ew)
    | none => if w.n ≠ b.length then .ended (some errShortWrite) else next er

/-- The loop has not failed. -/
def Good : Loop → Prop
  | .ended (some _) => False
  | _ => True

/-- How the loop stands to the error of its last read. -/
def Follows (last : Option Error) : Loop → Prop
  | .reading => last = none
  | .writing b er => last = er ∧ b ≠ []
  | .ended none => last = some .eof
  | .ended (some _) => True

end Loop

/-- A loop that has read these bytes and made these writes. -/
structure Copying (read : Bytes) (last : Option Error) (loop : Loop)
    (writes : List (Bytes × Written)) : Prop where
  passed : read = given writes ++ loop.held
  front : accepted writes <+: given writes
  whole : loop.Good → ∀ w ∈ writes, w.2 = .whole w.1
  /-- No write follows one that failed. -/
  early : ∀ w ∈ writes.dropLast, w.2 = .whole w.1
  /-- Nothing is written for a read that returned no bytes. -/
  filled : ∀ w ∈ writes, w.1 ≠ []
  follows : loop.Follows last

namespace Copying

variable {read : Bytes} {last : Option Error} {loop : Loop} {writes : List (Bytes × Written)}

theorem start : Copying [] none .reading [] :=
  ⟨rfl, List.prefix_rfl, fun _ _ hw => absurd hw List.not_mem_nil,
    fun _ hw => absurd hw List.not_mem_nil, fun _ hw => absurd hw List.not_mem_nil, rfl⟩

/-- Writes that a loop goes on from were taken whole. -/
theorem accepted_eq (h : Copying read last loop writes) (hg : loop.Good) :
    accepted writes = given writes := accepted_of_whole (h.whole hg)

theorem next_follows (er : Option Error) : (Loop.next er).Follows er := by
  unfold Loop.next
  split <;> trivial

theorem next_held (er : Option Error) : (Loop.next er).held = [] := by
  unfold Loop.next
  split <;> rfl

/-- A read. -/
theorem read_step (h : Copying read last .reading writes) (b : Bytes) (er : Option Error) :
    Copying (read ++ b) er (.afterRead b er) writes := by
  have hpassed : read = given writes := by simpa [Loop.held] using h.passed
  unfold Loop.afterRead
  split
  · next hb =>
      exact ⟨congrArg (· ++ b) hpassed, h.front, fun _ => h.whole trivial, h.early, h.filled,
        rfl, List.length_pos_iff.mp hb⟩
  · next hb =>
      have hnil : b = [] := List.length_eq_zero_iff.mp (Nat.eq_zero_of_not_pos hb)
      refine ⟨?_, h.front, fun _ => h.whole trivial, h.early, h.filled, next_follows er⟩
      rw [next_held, hnil, List.append_nil, List.append_nil, hpassed]

/-- A write, whatever it returns. -/
theorem write_step {b : Bytes} {er : Option Error} (h : Copying read last (.writing b er) writes)
    (w : Written) : Copying read last (.afterWrite b er w) (writes ++ [(b, w)]) := by
  have hpassed : read = given (writes ++ [(b, w)]) := by
    rw [given_snoc]
    exact h.passed
  have hfront : accepted (writes ++ [(b, w)]) <+: given (writes ++ [(b, w)]) := by
    rw [accepted_snoc, given_snoc, h.accepted_eq trivial]
    exact (List.prefix_append_right_inj _).mpr (List.take_prefix _ _)
  obtain ⟨hlast, hb⟩ := h.follows
  have hfilled : ∀ x ∈ writes ++ [(b, w)], x.1 ≠ [] := fun x hx => by
    rcases List.mem_append.mp hx with hx | hx
    · exact h.filled x hx
    · rw [List.mem_singleton.mp hx]
      exact hb
  have hearly : ∀ x ∈ (writes ++ [(b, w)]).dropLast, x.2 = .whole x.1 := by
    rw [List.dropLast_concat]
    exact h.whole trivial
  have hfailed : ∀ e, Copying read last (.ended (some e)) (writes ++ [(b, w)]) := fun e =>
    ⟨hpassed.trans (List.append_nil _).symm, hfront, False.elim, hearly, hfilled,
      trivial⟩
  unfold Loop.afterWrite
  split
  · exact hfailed _
  · split
    · exact hfailed _
    · next he =>
        split
        · exact hfailed _
        · next hn =>
            have hw : w = .whole b := by
              cases w
              exact congrArg₂ Written.mk (not_not.mp hn) he
            refine ⟨by rw [next_held, List.append_nil, hpassed], hfront, fun _ x hx => ?_,
              hearly, hfilled, ?_⟩
            · rcases List.mem_append.mp hx with hx | hx
              · exact h.whole trivial x hx
              · rw [List.mem_singleton.mp hx]
                exact hw
            · rw [hlast]
              exact next_follows er

/-- What a loop has passed on is a front of what it has read. -/
theorem accepted_prefix (h : Copying read last loop writes) : accepted writes <+: read := by
  rw [h.passed]
  exact h.front.trans (List.prefix_append _ _)

/-- A loop that ends without an error has passed on everything, up to the end of its source. -/
theorem done (h : Copying read last (.ended none) writes) :
    accepted writes = read ∧ last = some .eof := by
  refine ⟨?_, h.follows⟩
  rw [h.accepted_eq trivial, h.passed]
  exact (List.append_nil _).symm

end Copying

/-! ## Two loops over one connection -/

/-- A process that copies from its input to a connection, and from there to its output. -/
structure Pipes (σ : Type) where
  process : Process σ
  input : Reader
  /-- History: the writes to the output, with what they returned. -/
  output : List (Bytes × Written) := []
  up : Loop := .reading
  down : Loop := .reading

/-- Which of the loops makes its next call, and how a write of it comes out. -/
inductive Turn where
  | up (fate : Fate)
  | down (fate : Fate)
  deriving DecidableEq

namespace Pipes

variable {σ : Type} (C : Conn σ)

/-- The error of the last read of the connection. -/
def lastError (got : List (Bytes × Option Error)) : Option Error :=
  (got.getLast?.map Prod.snd).join

/-- The next call of the loop to the connection. -/
def stepUp (m : Pipes σ) (fate : Fate) : Pipes σ :=
  match m.up with
  | .reading =>
      let (b, er, input) := m.input.read copySize
      { m with input, up := .afterRead b er }
  | .writing b er =>
      let process := m.process.step C (.write b fate)
      { m with process, up := .afterWrite b er (C.write m.process.conn fate b).1 }
  | .ended _ => m

/-- The next call of the loop from the connection. What the output takes depends on the fate
alone. -/
def stepDown (m : Pipes σ) (fate : Fate) : Pipes σ :=
  match m.down with
  | .reading =>
      let process := m.process.step C (.read copySize)
      match (C.read m.process.conn copySize).1 with
      | .bytes b er => { m with process, down := .afterRead b er }
      | .panic => { m with process }
  | .writing b er =>
      let w := fate.written b
      { m with output := m.output ++ [(b, w)], down := .afterWrite b er w }
  | .ended _ => m

/-- One call of either loop. A panic in one of them stops both. -/
def step (m : Pipes σ) (turn : Turn) : Pipes σ :=
  if m.process.crashed then m
  else
    match turn with
    | .up fate => m.stepUp C fate
    | .down fate => m.stepDown C fate

def run (m : Pipes σ) (turns : List Turn) : Pipes σ := turns.foldl (step C) m

/-- The calls of the two loops so far, and where they stand. -/
structure Piped (start : Process σ) (input : Bytes) (m : Pipes σ) : Prop where
  calls : ∃ calls, m.process = start.run C calls
  up : ∃ read last, Copying read last m.up m.process.written ∧ input = read ++ m.input.content ∧
    (last.isSome = true → m.input.content = [])
  down : Copying (returned m.process.got) (lastError m.process.got) m.down m.output
  /-- No read follows one that ended with an error. -/
  clean : ∀ x ∈ m.process.got.dropLast, x.2 = none

theorem lastError_snoc (got : List (Bytes × Option Error)) (b : Bytes) (er : Option Error) :
    lastError (got ++ [(b, er)]) = er := by
  simp [lastError]

/-- Where the last read had no error, none had. -/
theorem no_error {got : List (Bytes × Option Error)} (hl : lastError got = none)
    (hc : ∀ x ∈ got.dropLast, x.2 = none) : ∀ x ∈ got, x.2 = none := by
  intro x hx
  cases hg : got.getLast? with
  | none => simp [List.getLast?_eq_none_iff.mp hg] at hx
  | some last =>
      rw [← List.dropLast_append_getLast? last hg] at hx
      rcases List.mem_append.mp hx with hx | hx
      · exact hc x hx
      · rw [List.mem_singleton.mp hx]
        simpa [lastError, hg] using hl

variable {C}

theorem Piped.call {start : Process σ} {input : Bytes} {m : Pipes σ} (h : Piped C start input m)
    (call : Call) : ∃ calls, m.process.step C call = start.run C calls := by
  obtain ⟨calls, hcalls⟩ := h.calls
  exact ⟨calls ++ [call], by rw [Process.run_snoc, ← hcalls]⟩

theorem Piped.stepUp {start : Process σ} {input : Bytes} {m : Pipes σ}
    (h : Piped C start input m) (alive : m.process.crashed = false) (fate : Fate) :
    Piped C start input (m.stepUp C fate) := by
  obtain ⟨read, last, hcopy, hinput, hlast⟩ := h.up
  unfold Pipes.stepUp
  split
  · next hup =>
      obtain ⟨b, er, r, hr, -, hc, -, he⟩ := m.input.read_spec copySize
      rw [hup] at hcopy
      rw [hr]
      refine ⟨h.calls, ⟨_, _, hcopy.read_step b er, ?_, fun hs => ?_⟩, h.down, h.clean⟩
      · rw [hinput, hc, List.append_assoc]
      · obtain ⟨e, rfl⟩ := Option.isSome_iff_exists.mp hs
        exact (he e rfl).2
  · next b er hup =>
      have hcalls := h.call (.write b fate)
      rw [hup] at hcopy
      have hstep := hcopy.write_step (C.write m.process.conn fate b).1
      rw [Process.step_write alive] at hcalls ⊢
      exact ⟨hcalls, ⟨_, _, hstep, hinput, hlast⟩, h.down, h.clean⟩
  · exact h

theorem Piped.stepDown {start : Process σ} {input : Bytes} {m : Pipes σ}
    (h : Piped C start input m) (alive : m.process.crashed = false) (fate : Fate) :
    Piped C start input (m.stepDown C fate) := by
  have hdown := h.down
  unfold Pipes.stepDown
  split
  · next hd =>
      have hcalls := h.call (.read copySize)
      rw [hd] at hdown
      cases hr : C.read m.process.conn copySize with
      | mk g conn =>
          cases g with
          | bytes b er =>
              have hread := hdown.read_step b er
              rw [Process.step_read alive hr] at hcalls ⊢
              refine ⟨hcalls, h.up, ?_, ?_⟩
              · change Copying (returned (m.process.got ++ [(b, er)]))
                  (lastError (m.process.got ++ [(b, er)])) _ _
                rwa [returned_snoc, lastError_snoc]
              · change ∀ x ∈ (m.process.got ++ [(b, er)]).dropLast, x.2 = none
                rw [List.dropLast_concat]
                exact no_error hdown.follows h.clean
          | panic =>
              rw [Process.step_panic alive hr] at hcalls ⊢
              refine ⟨hcalls, h.up, ?_, h.clean⟩
              rwa [← hd] at hdown
  · next b er hd =>
      rw [hd] at hdown
      exact ⟨h.calls, h.up, hdown.write_step _, h.clean⟩
  · exact h

/-- One call of either loop. -/
theorem Piped.step {start : Process σ} {input : Bytes} {m : Pipes σ} (h : Piped C start input m)
    (turn : Turn) : Piped C start input (m.step C turn) := by
  unfold Pipes.step
  split
  · exact h
  · next hc =>
      have alive : m.process.crashed = false := by simpa using hc
      cases turn with
      | up fate => exact h.stepUp alive fate
      | down fate => exact h.stepDown alive fate

/-- Before the first call. -/
def start (process : Process σ) (input : Reader) : Pipes σ := { process, input }

/-- However the loops take turns. -/
theorem piped_run {process : Process σ} (hw : process.written = []) (hg : process.got = [])
    (input : Reader) (turns : List Turn) :
    Piped C process input.content ((start process input).run C turns) := by
  have hstart : Piped C process input.content (start process input) := by
    refine ⟨⟨[], rfl⟩, ⟨[], none, ?_, rfl, nofun⟩, ?_, ?_⟩
    · change Copying [] none .reading process.written
      rw [hw]
      exact .start
    · change Copying (returned process.got) (lastError process.got) .reading []
      rw [hg]
      exact .start
    · change ∀ x ∈ process.got.dropLast, x.2 = none
      rw [hg]
      exact fun _ hx => absurd hx List.not_mem_nil
  rw [run]
  generalize start process input = m at hstart
  induction turns generalizing m with
  | nil => exact hstart
  | cons turn rest ih => exact ih _ (hstart.step turn)

/-- What the connection was given is a front of the input, and no write of it was empty. -/
theorem Piped.offered {process : Process σ} {input : Bytes} {m : Pipes σ}
    (h : Piped C process input m) :
    given m.process.written <+: input ∧ ∀ w ∈ m.process.written, w.1 ≠ [] := by
  obtain ⟨read, last, hcopy, hinput, -⟩ := h.up
  refine ⟨?_, hcopy.filled⟩
  rw [hinput, hcopy.passed, List.append_assoc]
  exact List.prefix_append _ _

/-- What was taken of the input is a front of it. -/
theorem Piped.taken {process : Process σ} {input : Bytes} {m : Pipes σ}
    (h : Piped C process input m) : accepted m.process.written <+: input := by
  obtain ⟨read, last, hcopy, hinput, -⟩ := h.up
  exact hcopy.accepted_prefix.trans ⟨_, hinput.symm⟩

/-- A loop to the connection that ends without an error has passed on the whole input. -/
theorem Piped.taken_all {process : Process σ} {input : Bytes} {m : Pipes σ}
    (h : Piped C process input m) (hup : m.up = .ended none) :
    accepted m.process.written = input ∧ ∀ w ∈ m.process.written, w.2 = .whole w.1 := by
  obtain ⟨read, last, hcopy, hinput, hlast⟩ := h.up
  rw [hup] at hcopy
  obtain ⟨haccepted, heof⟩ := hcopy.done
  refine ⟨?_, hcopy.whole trivial⟩
  rw [haccepted, hinput, hlast (by rw [heof]; rfl), List.append_nil]

/-- What was put out is a front of what the connection returned. -/
theorem Piped.put {process : Process σ} {input : Bytes} {m : Pipes σ}
    (h : Piped C process input m) : accepted m.output <+: returned m.process.got :=
  h.down.accepted_prefix

/-- A loop from the connection that ends without an error has put out all that was returned, and
the connection was at its end. -/
theorem Piped.put_all {process : Process σ} {input : Bytes} {m : Pipes σ}
    (h : Piped C process input m) (hdown : m.down = .ended none) :
    accepted m.output = returned m.process.got ∧ ∃ x ∈ m.process.got, x.2.isSome = true := by
  have hcopy := h.down
  rw [hdown] at hcopy
  obtain ⟨haccepted, heof⟩ := hcopy.done
  refine ⟨haccepted, ?_⟩
  cases hl : m.process.got.getLast? with
  | none => simp [lastError, hl] at heof
  | some x =>
      refine ⟨x, List.mem_of_getLast? hl, ?_⟩
      have hx : x.2 = some .eof := by simpa [lastError, hl] using heof
      rw [hx]
      rfl

/-! ## What the two ends get -/

/-- A stream that was sent a request in front of what was written. -/
structure Framed (request : Bytes) (written : List (Bytes × Written)) (sent : Bytes) : Prop where
  silent : written = [] → sent = []
  front : sent <+: request ++ given written
  whole : written ≠ [] → (∀ w ∈ written, w.2 = .whole w.1) → sent = request ++ given written

/-- What a server makes of a stream on which it expects a request. -/
structure Served {α : Type} (accept : Reads α) (target : α) (m : Pipes σ)
    (input sent : Bytes) : Prop where
  /-- Without input there is no request. -/
  silent : input = [] → sent = []
  /-- A request that is read is this one, in front of a front of the input. -/
  front : ∀ (r : Reader) a r', r.content = sent → accept r = (.ok a, r') →
    a = target ∧ r'.content <+: input
  /-- Once the loop has ended without an error it is read, in front of the whole input. -/
  whole : m.up = .ended none → input ≠ [] → ∀ r : Reader, r.content = sent →
    ∃ r', accept r = (.ok target, r') ∧ r'.content = input

/-- What is put out of a payload. -/
structure Answered (m : Pipes σ) (payload : Bytes) : Prop where
  front : accepted m.output <+: payload
  whole : m.down = .ended none → accepted m.output = payload

theorem Piped.served {α : Type} {process : Process σ} {input request sent : Bytes} {m : Pipes σ}
    (h : Piped C process input m) {accept : Reads α} {target : α}
    (hr : Exactly accept request (.ok target)) (hf : Framed request m.process.written sent) :
    Served accept target m input sent := by
  obtain ⟨hoffered, hfilled⟩ := h.offered
  refine ⟨fun hnil => hf.silent ?_, fun r a r' hc ha => ?_, fun hup hne r hc => ?_⟩
  · rw [hnil, List.prefix_nil] at hoffered
    refine List.eq_nil_iff_forall_not_mem.mpr fun w hw => hfilled w hw ?_
    exact List.flatMap_eq_nil_iff.mp hoffered w hw
  · have hfront : r.content <+: request ++ input := by
      rw [hc]
      exact hf.front.trans ((List.prefix_append_right_inj _).mpr hoffered)
    exact hr.of_front hfront ha
  · obtain ⟨haccepted, hwhole⟩ := h.taken_all hup
    have hgiven : given m.process.written = input := by
      rw [← haccepted, accepted_of_whole hwhole]
    have hwritten : m.process.written ≠ [] := by
      rintro hnil
      rw [hnil] at hgiven
      exact hne hgiven.symm
    obtain ⟨r', ha, hb⟩ := hr.takes r input (by rw [hc, hf.whole hwritten hwhole, hgiven])
    exact ⟨r', ha, hb.content⟩

theorem Piped.answered {process : Process σ} {input payload : Bytes} {m : Pipes σ}
    (h : Piped C process input m) (hfront : returned m.process.got <+: payload)
    (hwhole : (∃ x ∈ m.process.got, x.2.isSome = true) → returned m.process.got = payload) :
    Answered m payload := by
  refine ⟨h.put.trans hfront, fun hdown => ?_⟩
  obtain ⟨haccepted, hend⟩ := h.put_all hdown
  rw [haccepted, hwhole hend]

/-- Where the first read ends with an error and no bytes, nothing is put out. -/
theorem Piped.unanswered {process : Process σ} {input : Bytes} {m : Pipes σ}
    (h : Piped C process input m) {e : Error}
    (hfirst : ∀ x rest, m.process.got = x :: rest → x = ([], some e)) : m.output = [] := by
  have hnil : returned m.process.got = [] := by
    cases hg : m.process.got with
    | nil => rfl
    | cons x rest =>
        have hclean := h.clean
        have hx := hfirst x rest hg
        cases rest with
        | nil =>
            rw [hx]
            rfl
        | cons y rest =>
            have hx' := hclean x (by rw [hg]; exact List.mem_cons_self)
            rw [hx] at hx'
            cases hx'
  have hpassed := h.down.passed
  rw [hnil, eq_comm, List.append_eq_nil_iff] at hpassed
  refine List.eq_nil_iff_forall_not_mem.mpr fun w hw => h.down.filled w hw ?_
  exact List.flatMap_eq_nil_iff.mp hpassed.1 w hw

end Pipes

end DshClashProxy.Go
