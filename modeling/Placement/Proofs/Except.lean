import Placement.Rejection
/-
  Results that may fail: what a sequence of steps, a guard and a change of error say about their
  parts (`bind_eq_ok`, `seq_eq_error`, `guard_eq_ok`, `mapError_eq_error`).
-/
namespace Placement

variable {ε ε' α β : Type}

/-- A step that comes to a result after another one: the first came to a result as well. -/
theorem bind_eq_ok {x : Except ε α} {f : α → Except ε β} {b : β} :
    x >>= f = .ok b ↔ ∃ a, x = .ok a ∧ f a = .ok b := by
  cases x with
  | error e =>
    constructor
    · intro h
      exact nomatch h
    · rintro ⟨a, h, -⟩
      exact nomatch h
  | ok a =>
    constructor
    · intro h
      exact ⟨a, rfl, h⟩
    · rintro ⟨a', h, hf⟩
      cases h
      exact hf

theorem ok_bind (a : α) (f : α → Except ε β) : (Except.ok a : Except ε α) >>= f = f a := rfl

/-- A check before a result. -/
theorem bind_pure_const (x : Except ε α) (b : β) :
    (x >>= fun _ => pure b) = x.map fun _ => b := by cases x <;> rfl

/-- Another error makes no result. -/
theorem mapError_eq_ok {x : Except ε α} {f : ε → ε'} {a : α} :
    x.mapError f = .ok a ↔ x = .ok a := by
  cases x with
  | error e =>
    constructor <;> intro h <;> exact nomatch h
  | ok b =>
    constructor <;> intro h <;> cases h <;> rfl

/-- A failure under another error comes from one. -/
theorem mapError_eq_error {x : Except ε α} {f : ε → ε'} {e' : ε'} :
    x.mapError f = .error e' ↔ ∃ e, x = .error e ∧ e' = f e := by
  cases x with
  | error e =>
    constructor
    · intro h
      cases h
      exact ⟨e, rfl, rfl⟩
    · rintro ⟨_, h, rfl⟩
      cases h
      rfl
  | ok b =>
    constructor
    · intro h
      exact nomatch h
    · rintro ⟨_, h, -⟩
      exact nomatch h

/-- A check that does not pass fails. -/
theorem ne_ok_iff {x : Except ε Unit} : x ≠ .ok () ↔ ∃ e, x = .error e := by
  cases x with
  | error e =>
    refine iff_of_true ?_ ⟨e, rfl⟩
    intro h
    cases h
  | ok u =>
    refine iff_of_false (fun h => h rfl) ?_
    rintro ⟨e, h⟩
    cases h

/-- A result that only waits for a check. -/
theorem map_const_eq_ok {x : Except ε Unit} {a a' : α} :
    x.map (fun _ => a) = .ok a' ↔ x = .ok () ∧ a' = a := by
  cases x with
  | error e =>
    constructor
    · intro h
      cases h
    · rintro ⟨h, -⟩
      cases h
  | ok u =>
    constructor
    · intro h
      cases h
      exact ⟨rfl, rfl⟩
    · rintro ⟨-, rfl⟩
      rfl

/-- A check before other steps: it passes and they go on. -/
theorem seq_eq_ok {x : Except ε Unit} {rest : Except ε α} {a : α} :
    (x >>= fun _ => rest) = .ok a ↔ x = .ok () ∧ rest = .ok a := by
  rw [bind_eq_ok]
  exact ⟨fun ⟨_, h⟩ => h, fun h => ⟨(), h⟩⟩

/-- A check before other steps: it fails, or it passes and they do. -/
theorem seq_eq_error {x : Except ε Unit} {rest : Except ε α} {e : ε} :
    (x >>= fun _ => rest) = .error e ↔ x = .error e ∨ x = .ok () ∧ rest = .error e := by
  cases x with
  | error e' =>
    constructor
    · intro h
      cases h
      exact .inl rfl
    · rintro (h | ⟨h, -⟩) <;> cases h
      rfl
  | ok a =>
    constructor
    · intro h
      exact .inr ⟨rfl, h⟩
    · rintro (h | ⟨-, h⟩)
      · exact nomatch h
      · exact h

/-- A failure has no result that could be made into another. -/
theorem map_eq_error {x : Except ε α} {f : α → β} {e : ε} :
    x.map f = .error e ↔ x = .error e := by
  cases x with
  | error e' =>
    constructor <;> intro h <;> cases h <;> rfl
  | ok a =>
    constructor <;> intro h <;> exact nomatch h

/-- A guard lets other steps go on where its condition does not hold. -/
theorem guard_eq_ok {e : ε} {c : Prop} [Decidable c] :
    (if c then throw e else pure () : Except ε Unit) = .ok () ↔ ¬ c := by
  by_cases h : c
  · rw [if_pos h]
    exact ⟨fun hr => (nomatch hr), fun hc => absurd h hc⟩
  · rw [if_neg h]
    exact ⟨fun _ => h, fun _ => rfl⟩

/-- A guard before other steps. -/
theorem guard_seq_eq_ok {e : ε} {c : Prop} [Decidable c] {f : Unit → Except ε α} {a : α} :
    (if c then throw e >>= f else f ()) = .ok a ↔ ¬ c ∧ f () = .ok a := by
  by_cases h : c
  · rw [if_pos h]
    exact ⟨fun hr => (nomatch hr), fun hc => absurd h hc.1⟩
  · rw [if_neg h]
    exact ⟨fun hr => ⟨h, hr⟩, fun hr => hr.2⟩

end Placement
