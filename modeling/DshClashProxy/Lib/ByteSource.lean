import Mathlib.Data.List.Basic

/-!
# Exact reads from a stream that arrives in pieces

A source is what a parser may rely on when it reads exact counts: the pieces in which the
stream arrives do not show, only the content still to be read does.
-/
namespace DshClashProxy.Lib.ByteSource

/-- A stream read by exact counts. The law says a read within the content succeeds and
takes the front of it. -/
structure Source (α : Type) where
  State : Type
  content : State → List α
  read : State → Nat → Option (List α × State)
  read_of_le : ∀ s n, n ≤ (content s).length →
    ∃ s', read s n = some ((content s).take n, s') ∧ content s' = (content s).drop n

namespace Source
variable {α : Type} (source : Source α)

theorem read_append {s : source.State} {a b : List α} (h : source.content s = a ++ b) :
    ∃ s', source.read s a.length = some (a, s') ∧ source.content s' = b := by
  obtain ⟨s', hr, hc⟩ := source.read_of_le s a.length (by rw [h, List.length_append]; omega)
  rw [h, List.take_left] at hr
  rw [h, List.drop_left] at hc
  exact ⟨s', hr, hc⟩

/-- Programs that read from the source. None is a read that never settles. -/
abbrev Reads (ε : Type) := ExceptT ε (StateT source.State Option)

variable {source} {ε β γ : Type}

/-- The next elements, this many of them. -/
def next (count : Nat) : source.Reads ε (List α) := fun s =>
  (source.read s count).map fun r => (.ok r.1, r.2)

/-- The program returns this result from every stream that starts with the front, and leaves
exactly what is behind it. -/
def Consumes (p : source.Reads ε β) (front : List α) (b : β) : Prop :=
  ∀ s rest, source.content s = front ++ rest →
    ∃ s', p s = some (.ok b, s') ∧ source.content s' = rest

theorem consumes_next (front : List α) :
    Consumes (next front.length : source.Reads ε (List α)) front front := by
  intro s rest h
  obtain ⟨s', hr, hc⟩ := source.read_append h
  exact ⟨s', by rw [next, hr]; rfl, hc⟩

theorem consumes_of_length {front : List α} {count : Nat} (h : front.length = count) :
    Consumes (next count : source.Reads ε (List α)) front front := h ▸ consumes_next front

theorem consumes_pure (b : β) : Consumes (pure b : source.Reads ε β) [] b :=
  fun s _ h => ⟨s, rfl, h⟩

theorem Consumes.bind {p : source.Reads ε β} {f : β → source.Reads ε γ} {front back : List α}
    {b : β} {c : γ} (hp : Consumes p front b) (hf : Consumes (f b) back c) :
    Consumes (p >>= f) (front ++ back) c := by
  intro s rest h
  rw [List.append_assoc] at h
  obtain ⟨s', hs, hc⟩ := hp s (back ++ rest) h
  obtain ⟨s'', hs', hc'⟩ := hf s' rest hc
  refine ⟨s'', ?_, hc'⟩
  change Option.bind (p s) _ = _
  rw [hs]
  exact hs'

/-- A program goes on behind what its first step consumes. -/
theorem Consumes.bind_eq {p : source.Reads ε β} {front rest : List α} {b : β}
    (hp : Consumes p front b) {s : source.State} (h : source.content s = front ++ rest) :
    ∃ s', source.content s' = rest ∧
      ∀ (γ : Type) (f : β → source.Reads ε γ), (p >>= f) s = f b s' := by
  obtain ⟨s', hs, hc⟩ := hp s rest h
  refine ⟨s', hc, fun γ f => ?_⟩
  change Option.bind (p s) _ = _
  rw [hs]
  rfl

/-- A last step that reads nothing. -/
theorem Consumes.bind_nil {p : source.Reads ε β} {f : β → source.Reads ε γ} {front : List α}
    {b : β} {c : γ} (hp : Consumes p front b) (hf : Consumes (f b) [] c) :
    Consumes (p >>= f) front c := by
  have := hp.bind hf
  rwa [List.append_nil] at this

/-- A first step that reads nothing. -/
theorem Consumes.of_pure {f : β → source.Reads ε γ} {back : List α} {b : β} {c : γ}
    (hf : Consumes (f b) back c) : Consumes (pure b >>= f) back c := (consumes_pure b).bind hf

/-! ### What a result says of the stream -/

/-- No read beyond the content settles. -/
def Exact (source : Source α) : Prop :=
  ∀ s count r, source.read s count = some r → count ≤ (source.content s).length

theorem bind_apply (p : source.Reads ε β) (f : β → source.Reads ε γ) (s : source.State) :
    (p >>= f) s = match p s with
      | some (.ok b, s') => f b s'
      | some (.error e, s') => some (.error e, s')
      | none => none := by
  change Option.bind (p s) _ = _
  rcases p s with _ | ⟨_ | _, _⟩ <;> rfl

theorem pure_apply (b : β) (s : source.State) :
    (pure b : source.Reads ε β) s = some (.ok b, s) := rfl

theorem throw_apply (e : ε) (s : source.State) :
    (throw e : source.Reads ε β) s = some (.error e, s) := rfl

theorem bind_inv {p : source.Reads ε β} {f : β → source.Reads ε γ} {s s'' : source.State} {c : γ}
    (h : (p >>= f) s = some (.ok c, s'')) :
    ∃ b s', p s = some (.ok b, s') ∧ f b s' = some (.ok c, s'') := by
  change Option.bind (p s) _ = _ at h
  obtain ⟨⟨result, s'⟩, hp, hf⟩ := Option.bind_eq_some_iff.mp h
  cases result with
  | error e => cases hf
  | ok b => exact ⟨b, s', hp, hf⟩

/-- A program waits where its first step does. -/
theorem bind_none {p : source.Reads ε β} (f : β → source.Reads ε γ) {s : source.State}
    (h : p s = none) : (p >>= f) s = none := by
  change Option.bind (p s) _ = _
  rw [h]
  rfl

/-- A program throws what its first step throws. -/
theorem bind_error {p : source.Reads ε β} (f : β → source.Reads ε γ) {s s' : source.State} {e : ε}
    (h : p s = some (.error e, s')) : (p >>= f) s = some (.error e, s') := by
  change Option.bind (p s) _ = _
  rw [h]
  rfl

theorem Exact.next_waits (hexact : source.Exact) {count : Nat} {s : source.State}
    (h : (source.content s).length < count) :
    (next count : source.Reads ε (List α)) s = none := by
  cases hr : source.read s count with
  | none =>
      rw [next, hr]
      rfl
  | some r => exact absurd (hexact s count r hr) (by omega)

theorem Exact.next_inv (hexact : source.Exact) {count : Nat} {s s' : source.State} {b : List α}
    (h : (next count : source.Reads ε (List α)) s = some (.ok b, s')) :
    source.content s = b ++ source.content s' ∧ b.length = count := by
  obtain ⟨⟨read, state⟩, hr, he⟩ := Option.map_eq_some_iff.mp h
  cases he
  have hle := hexact s count _ hr
  obtain ⟨s'', hs, hc⟩ := source.read_of_le s count hle
  cases hr.symm.trans hs
  exact ⟨by rw [hc, List.take_append_drop], List.length_take_of_le hle⟩

/-- A list that is read from its front. -/
def ofList (α : Type) : Source α where
  State := List α
  content := id
  read s count := if count ≤ s.length then some (s.take count, s.drop count) else none
  read_of_le _ _ h := ⟨_, if_pos h, rfl⟩

/-- A program reads a list that is just its front to the end. -/
theorem Consumes.ofList {p : (ofList α).Reads ε β} {front : List α} {b : β}
    (h : Consumes p front b) : p front = some (.ok b, []) := by
  obtain ⟨s', hs, hc⟩ := h front [] (List.append_nil front).symm
  obtain rfl : s' = [] := hc
  exact hs

end Source

section Items
variable {σ β : Type} (next : σ → Option (Option β × σ))

/-- The reader yields these items and then reports the end. -/
inductive Yields : σ → List β → Prop where
  | stop {s s' : σ} : next s = some (none, s') → Yields s []
  | item {s s' : σ} {b : β} {bs : List β} :
      next s = some (some b, s') → Yields s' bs → Yields s (b :: bs)

variable {next}

/-- A relation between states and the items they stand for, which each read keeps, makes
the reader yield those items. -/
theorem yields_of {R : σ → List β → Prop}
    (hstop : ∀ s, R s [] → ∃ s', next s = some (none, s'))
    (hitem : ∀ s b bs, R s (b :: bs) → ∃ s', next s = some (some b, s') ∧ R s' bs)
    {s : σ} {bs : List β} (h : R s bs) : Yields next s bs := by
  induction bs generalizing s with
  | nil =>
      obtain ⟨s', hn⟩ := hstop s h
      exact Yields.stop hn
  | cons b bs ih =>
      obtain ⟨s', hn, hr⟩ := hitem s b bs h
      exact Yields.item hn (ih hr)

end Items

section Endings
variable {σ β ε : Type} (next : σ → Option (Except ε (Option β) × σ))

/-- The iterator yields these items and then ends with this result. -/
inductive Iterates : σ → List β → Except ε Unit → Prop where
  | done {s s' : σ} : next s = some (.ok none, s') → Iterates s [] (.ok ())
  | threw {s s' : σ} {e : ε} : next s = some (.error e, s') → Iterates s [] (.error e)
  | item {s s' : σ} {b : β} {bs : List β} {result : Except ε Unit} :
      next s = some (.ok (some b), s') → Iterates s' bs result → Iterates s (b :: bs) result

variable {next}

/-- An iterator has one run. -/
theorem Iterates.unique {s : σ} {bs₁ bs₂ : List β} {result₁ result₂ : Except ε Unit}
    (h₁ : Iterates next s bs₁ result₁) (h₂ : Iterates next s bs₂ result₂) :
    bs₁ = bs₂ ∧ result₁ = result₂ := by
  induction h₁ generalizing bs₂ with
  | done hn =>
      cases h₂ with
      | done hn' => exact ⟨rfl, rfl⟩
      | threw hn' => rw [hn] at hn'; cases hn'
      | item hn' _ => rw [hn] at hn'; cases hn'
  | threw hn =>
      cases h₂ with
      | done hn' => rw [hn] at hn'; cases hn'
      | threw hn' => rw [hn] at hn'; cases hn'; exact ⟨rfl, rfl⟩
      | item hn' _ => rw [hn] at hn'; cases hn'
  | item hn _ ih =>
      cases h₂ with
      | done hn' => rw [hn] at hn'; cases hn'
      | threw hn' => rw [hn] at hn'; cases hn'
      | item hn' h' =>
          rw [hn] at hn'
          cases hn'
          obtain ⟨rfl, rfl⟩ := ih h'
          exact ⟨rfl, rfl⟩

/-- A relation between states and the items still to come, which each step keeps. -/
theorem iterates_of {R : σ → List β → Prop} {result : Except ε Unit}
    (hstop : ∀ s, R s [] → Iterates next s [] result)
    (hitem : ∀ s b bs, R s (b :: bs) → ∃ s', next s = some (.ok (some b), s') ∧ R s' bs)
    {s : σ} {bs : List β} (h : R s bs) : Iterates next s bs result := by
  induction bs generalizing s with
  | nil => exact hstop s h
  | cons b bs ih =>
      obtain ⟨s', hn, hr⟩ := hitem s b bs h
      exact .item hn (ih hr)

/-- Where each item takes elements off a finite content, the run ends, and its items are
what the content held. -/
theorem iterates_content {α : Type} {next : σ → Option (Except ε (Option (List α)) × σ)}
    {R : σ → List α → Prop} {result : Except ε Unit}
    (hstep : ∀ s content, R s content →
      (content = [] ∧ Iterates next s [] result) ∨
      ∃ b s' rest, next s = some (.ok (some b), s') ∧ b ≠ [] ∧ content = b ++ rest ∧ R s' rest)
    {s : σ} {content : List α} (h : R s content) :
    ∃ bs, Iterates next s bs result ∧ bs.flatten = content := by
  induction hn : content.length using Nat.strongRecOn generalizing s content with
  | _ n ih =>
      rcases hstep s content h with ⟨rfl, hi⟩ | ⟨b, s', rest, hb, hne, rfl, hr⟩
      · exact ⟨[], hi, rfl⟩
      · have hlt : rest.length < n := by
          have := List.length_pos_iff.mpr hne
          rw [← hn, List.length_append]
          omega
        obtain ⟨bs, hi, hf⟩ := ih _ hlt hr rfl
        exact ⟨b :: bs, .item hb hi, by rw [List.flatten_cons, hf]⟩

end Endings

end DshClashProxy.Lib.ByteSource
