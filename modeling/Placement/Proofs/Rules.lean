import Placement.Proofs.Except
/-
  Rules that are looked at in order. `FirstBroken rules e`: `e` is the error of the first broken
  rule. `Checks rules x`: the check `x` reports that one and no other. `Checks.seq`: checks made one
  after the other look at the rules of the first, then at those of the second. `ite_eq_some` and
  `ite_eq_none` are the same for a check that is a chain of conditionals.
-/
namespace Placement

variable {ε : Type}

/-- What the first broken of some rules is reported as. A rule is told by when it is broken. -/
def FirstBroken (rules : List (Prop × ε)) (e : ε) : Prop :=
  ∃ before broken after, rules = before ++ (broken, e) :: after ∧ broken ∧
    ∀ rule ∈ before, ¬ rule.1

theorem firstBroken_nil (e : ε) : ¬ FirstBroken [] e := by
  rintro ⟨before, broken, after, h, -⟩
  simp at h

theorem firstBroken_cons {broken : Prop} {rules : List (Prop × ε)} {e e' : ε} :
    FirstBroken ((broken, e) :: rules) e' ↔ broken ∧ e' = e ∨ ¬ broken ∧ FirstBroken rules e' := by
  constructor
  · rintro ⟨before, broken', after, h, hbroken, hbefore⟩
    cases before with
    | nil =>
      cases h
      exact .inl ⟨hbroken, rfl⟩
    | cons rule before =>
      obtain ⟨rfl, rfl⟩ := List.cons.inj h
      rw [List.forall_mem_cons] at hbefore
      exact .inr ⟨hbefore.1, before, broken', after, rfl, hbroken, hbefore.2⟩
  · rintro (⟨hbroken, rfl⟩ | ⟨hholds, before, broken', after, rfl, hbroken, hbefore⟩)
    · exact ⟨[], broken, rules, rfl, hbroken, fun _ h => absurd h List.not_mem_nil⟩
    · exact ⟨(broken, e) :: before, broken', after, rfl, hbroken,
        List.forall_mem_cons.mpr ⟨hholds, hbefore⟩⟩

/-- Of two lists of rules the second counts where the first is kept. -/
theorem firstBroken_append {rules rules' : List (Prop × ε)} {e : ε} :
    FirstBroken (rules ++ rules') e ↔
      FirstBroken rules e ∨ (∀ rule ∈ rules, ¬ rule.1) ∧ FirstBroken rules' e := by
  induction rules with
  | nil => simp [firstBroken_nil]
  | cons rule rules ih =>
    rw [List.cons_append, firstBroken_cons, firstBroken_cons, ih, List.forall_mem_cons,
      and_or_left, or_assoc, and_assoc]

/-- A branch that reports a broken rule. -/
theorem ite_eq_some {broken : Prop} [Decidable broken] {x : Option ε} {e e' : ε} :
    (if broken then some e else x) = some e' ↔ broken ∧ e' = e ∨ ¬ broken ∧ x = some e' := by
  by_cases h : broken
  · rw [if_pos h, Option.some.injEq, and_iff_right h, eq_comm]
    exact (or_iff_left fun hx => hx.1 h).symm
  · rw [if_neg h, and_iff_right h]
    exact (or_iff_right fun hx => h hx.1).symm

/-- A branch that has nothing to report. -/
theorem ite_eq_none {broken : Prop} [Decidable broken] {x : Option ε} {e : ε} :
    (if broken then some e else x) = none ↔ ¬ broken ∧ x = none := by
  by_cases h : broken
  · rw [if_pos h]
    exact iff_of_false (Option.some_ne_none e) fun hx => hx.1 h
  · rw [if_neg h, and_iff_right h]

/-- A check of some rules: it passes when all are kept, and fails with what the first broken one is
reported as. -/
structure Checks (rules : List (Prop × ε)) (x : Except ε Unit) : Prop where
  eq_ok : x = .ok () ↔ ∀ rule ∈ rules, ¬ rule.1
  eq_error : ∀ e, x = .error e ↔ FirstBroken rules e

namespace Checks

variable {rules rules' : List (Prop × ε)} {x : Except ε Unit}

theorem nil : Checks [] (.ok () : Except ε Unit) where
  eq_ok := iff_of_true rfl fun _ h => absurd h List.not_mem_nil
  eq_error e := iff_of_false nofun (firstBroken_nil e)

theorem seq {rest : Except ε Unit} (h : Checks rules x) (h' : Checks rules' rest) :
    Checks (rules ++ rules') (x >>= fun _ => rest) where
  eq_ok := by rw [seq_eq_ok, h.eq_ok, h'.eq_ok, List.forall_mem_append]
  eq_error e := by rw [seq_eq_error, firstBroken_append, h.eq_error, h.eq_ok, h'.eq_error]

/-- One more rule before the others. -/
theorem cons {broken c : Prop} [Decidable c] {e : ε} (hc : c ↔ broken) (h : Checks rules x) :
    Checks ((broken, e) :: rules) (if c then .error e else x) where
  eq_ok := by
    rw [List.forall_mem_cons, ← h.eq_ok, ← hc]
    by_cases hbroken : c
    · rw [if_pos hbroken]
      exact iff_of_false nofun fun hrules => hrules.1 hbroken
    · rw [if_neg hbroken, and_iff_right hbroken]
  eq_error e' := by
    rw [firstBroken_cons, ← h.eq_error, ← hc]
    by_cases hbroken : c
    · rw [if_pos hbroken, Except.error.injEq, and_iff_right hbroken, eq_comm]
      exact (or_iff_left fun hx => hx.1 hbroken).symm
    · rw [if_neg hbroken, and_iff_right hbroken]
      exact (or_iff_right fun hx => hbroken hx.1).symm

end Checks

end Placement
