/-!
# Outcomes

What an operation comes to: a value or a failure.  `Alike` compares the
outcomes of two operations and says at the same time what they can fail for,
so that one walk through an operation shows both.  `Narrows` says of two
operations that one follows the other up to a change of its values.
-/

namespace FlatSchema

/-- If a step succeeds for every element, the loop collects the results. -/
theorem mapM_eq_ok {step : α → Except ε β} {elems : List α}
    (each : ∀ elem ∈ elems, step elem = .ok (res elem)) :
    elems.mapM step = .ok (elems.map res) := by
  induction elems with
  | nil => rfl
  | cons hd rest ih =>
    rw [List.mapM_cons, each hd List.mem_cons_self,
      ih fun elem mem => each elem (List.mem_cons_of_mem _ mem)]
    rfl

/-- A sequence succeeds if and only if both of its parts do. -/
theorem bind_eq_ok_iff {next : α → Except ε β} :
    op >>= next = .ok res ↔ ∃ v, op = .ok v ∧ next v = .ok res := by
  cases op with
  | error failure =>
    constructor
    · rintro ⟨⟩
    · rintro ⟨_, ⟨⟩, _⟩
  | ok v =>
    refine ⟨fun ran => ⟨v, rfl, ran⟩, ?_⟩
    rintro ⟨_, ⟨⟩, ran⟩
    exact ran

/-- A loop that succeeds takes each of its steps. -/
theorem exists_of_mapM_eq_ok {step : α → Except ε β} {elems : List α}
    (ran : elems.mapM step = .ok results) : ∀ elem ∈ elems, ∃ v, step elem = .ok v := by
  induction elems generalizing results with
  | nil => simp
  | cons hd rest ih =>
    grind [bind_eq_ok_iff, List.mapM_cons]

/-- Two outcomes that are the same, and of an allowed sort if they are failures. -/
def Alike {ε α : Type} (allowed : ε → Prop) (left right : Except ε α) : Prop :=
  left = right ∧ ∀ err, left = .error err → allowed err

/-- An outcome that is of an allowed sort if it is a failure. -/
abbrev FailsOnly {ε α : Type} (allowed : ε → Prop) (out : Except ε α) : Prop :=
  Alike allowed out out

namespace Alike

variable {ε α β : Type} {allowed : ε → Prop}

theorem pure (v : α) : FailsOnly allowed (Pure.pure v) :=
  ⟨rfl, fun _ same => nomatch same⟩

theorem error {failure : ε} (isAllowed : allowed failure) :
    FailsOnly allowed (.error failure : Except ε α) :=
  ⟨rfl, fun _ same => by cases same; exact isAllowed⟩

variable {leftNext rightNext : α → Except ε β}

theorem bind {left : Except ε α} (first : Alike allowed left right)
    (following : ∀ v, left = .ok v → Alike allowed (leftNext v) (rightNext v)) :
    Alike allowed (left >>= leftNext) (right >>= rightNext) := by
  rcases first with ⟨rfl, fails⟩
  cases left with
  | ok v => exact following v rfl
  | error failure => exact error (fails failure rfl)

theorem map {left : Except ε α} (same : Alike allowed left right) (function : α → β) :
    Alike allowed (function <$> left) (function <$> right) := by
  rcases same with ⟨rfl, fails⟩
  cases left with
  | ok v => exact pure (function v)
  | error failure => exact error (fails failure rfl)

theorem known (hit : step = .ok v) (following : Alike allowed (leftNext v) (rightNext v)) :
    Alike allowed (step >>= leftNext) (step >>= rightNext) := by
  rw [hit]
  exact following

theorem mapM {left right : α → Except ε β} {elems : List α}
    (each : ∀ elem ∈ elems, Alike allowed (left elem) (right elem)) :
    Alike allowed (elems.mapM left) (elems.mapM right) := by
  induction elems with
  | nil => exact pure []
  | cons hd rest ih =>
    rw [List.mapM_cons, List.mapM_cons]
    refine bind (each hd List.mem_cons_self) ?_
    intro head _
    refine bind (ih fun elem mem => each elem (List.mem_cons_of_mem _ mem)) ?_
    intro tail _
    exact pure (head :: tail)

theorem exists_ok {out : Except ε α} (succeeds : FailsOnly (fun _ => False) out) :
    ∃ v, out = .ok v := by
  cases out with
  | ok v => exact ⟨v, rfl⟩
  | error failure => exact (succeeds.2 failure rfl).elim

end Alike

/-- Where one outcome is a value, the other is what a change makes of it. -/
def Narrows {ε α β : Type} (change : α → β) (larger : Except ε α) (smaller : Except ε β) : Prop :=
  ∀ v, larger = .ok v → smaller = .ok (change v)

namespace Narrows

variable {ε α β γ δ : Type}

variable {change : α → β}

theorem pure (same : changed = change v) :
    Narrows (ε := ε) change (Pure.pure v) (Pure.pure changed) := by
  rintro _ ⟨⟩
  rw [same]
  rfl

variable {smaller : Except ε β}

theorem error {failure : ε} : Narrows change (.error failure) smaller :=
  fun _ same => by cases same

/-- A value that the change leaves alone. -/
theorem same {change : α → α} {out : Except ε α} (fixed : ∀ v, out = .ok v → change v = v) :
    Narrows change out out := by
  intro v hit
  rw [fixed v hit]
  exact hit

variable {largerNext : α → Except ε γ}

theorem bind {smallerNext : β → Except ε δ} (first : Narrows change larger smaller)
    (following : ∀ v, Narrows other (largerNext v) (smallerNext (change v))) :
    Narrows other (larger >>= largerNext) (smaller >>= smallerNext) := by
  cases larger with
  | error failure => exact error
  | ok v =>
    rw [first v rfl]
    exact following v

/-- A step that both take alike. -/
theorem step {smallerNext : α → Except ε δ}
    (following : ∀ v, out = .ok v → Narrows other (largerNext v) (smallerNext v)) :
    Narrows other (out >>= largerNext) (out >>= smallerNext) := by
  cases out with
  | error failure => exact error
  | ok v => exact following v rfl

theorem map_some {larger : Except ε α} (narrows : Narrows change larger smaller) :
    Narrows (Option.map change) (some <$> larger) (some <$> smaller) := by
  cases larger with
  | error failure => exact error
  | ok v =>
    rw [narrows v rfl]
    exact pure rfl

end Narrows

end FlatSchema
