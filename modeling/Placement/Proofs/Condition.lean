import Placement.Proofs.Except
/-
  Checks made in a row. `Judges x conditions result` says that the reader `x` accepts exactly where
  all `conditions` hold, with a value that satisfies `result`, and otherwise refuses for the first
  that fails (`FirstFailure`).

  `Judges.bind` composes: conditions of readers that follow each other stand one list after the
  other. `Judges.passes` and `Judges.checked` are the two kinds of single condition, a value that
  is spelled and a check that is passed.
-/
namespace Placement

variable {α β : Type}

/-- A condition on an input, and how an input is refused where it fails. -/
structure Condition where
  /-- The kind of the rejection. -/
  kind : Rejection.Kind
  holds : Prop
  refusal : Rejection → Prop

/-- What is spelled passes a check. -/
def Condition.passes (kind : Rejection.Kind) (spelled : α → Prop)
    (check : α → Except Rejection Unit) : Condition where
  kind := kind
  holds := ∃ a, spelled a ∧ check a = .ok ()
  refusal r := ∃ a, spelled a ∧ check a = .error r

/-- A rejection is that of the first condition that fails. -/
def FirstFailure : List Condition → Rejection → Prop
  | [], _ => False
  | c :: rest, r =>
    ¬ c.holds ∧ c.refusal r ∧ r.kind = c.kind ∨ c.holds ∧ FirstFailure rest r

theorem firstFailure_append (before after : List Condition) (r : Rejection) :
    FirstFailure (before ++ after) r ↔
      FirstFailure before r ∨ (∀ c ∈ before, c.holds) ∧ FirstFailure after r := by
  induction before with
  | nil => simp [FirstFailure]
  | cons c rest ih =>
    show _ ∨ c.holds ∧ FirstFailure (rest ++ after) r ↔ (_ ∨ c.holds ∧ FirstFailure rest r) ∨ _
    rw [ih, List.forall_mem_cons, and_or_left, or_assoc, and_assoc]

/-- Where a condition fails first, not all of them hold. -/
theorem FirstFailure.not_forall {conditions : List Condition} {r : Rejection}
    (h : FirstFailure conditions r) : ¬ ∀ c ∈ conditions, c.holds := by
  induction conditions with
  | nil => exact h.elim
  | cons c rest ih =>
    rw [List.forall_mem_cons]
    rintro ⟨hc, hrest⟩
    rcases h with ⟨hfails, -⟩ | ⟨-, h⟩
    · exact hfails hc
    · exact ih h hrest

/-- A check accepts, with such a result, exactly where all conditions hold, and otherwise refuses
for the first that fails. -/
structure Judges (x : Except Rejection α) (conditions : List Condition) (result : α → Prop) :
    Prop where
  ok : ∀ a, x = .ok a ↔ (∀ c ∈ conditions, c.holds) ∧ result a
  error : ∀ r, x = .error r ↔ FirstFailure conditions r

namespace Judges

variable {x : Except Rejection α} {conditions : List Condition} {result : α → Prop}

/-- There is a result exactly where all conditions hold. -/
theorem exists_ok (h : Judges x conditions result) :
    (∃ a, x = .ok a) ↔ ∀ c ∈ conditions, c.holds := by
  constructor
  · rintro ⟨a, ha⟩
    exact ((h.ok a).mp ha).1
  · intro hall
    cases hx : x with
    | ok a => exact ⟨a, rfl⟩
    | error r => exact absurd hall ((h.error r).mp hx).not_forall

/-- A result described in another way. -/
theorem congr {result' : α → Prop} (h : Judges x conditions result)
    (hresult : ∀ a, result a ↔ result' a) : Judges x conditions result' where
  ok a := (h.ok a).trans (and_congr_right fun _ => hresult a)
  error := h.error

/-- A check without conditions. -/
theorem pure (a : α) : Judges (.ok a) [] fun b => b = a where
  ok b := by simp [eq_comm]
  error r := by simp [FirstFailure]

/-- A check whose one condition holds. -/
theorem accepted {c : Condition} {a : α} (hholds : c.holds) (hresult : ∀ b, result b ↔ b = a) :
    Judges (.ok a) [c] result where
  ok b := by
    rw [Except.ok.injEq, List.forall_mem_singleton, and_iff_right hholds, hresult, eq_comm]
  error r := iff_of_false nofun fun h => h.not_forall (List.forall_mem_singleton.mpr hholds)

/-- A check whose one condition does not hold. -/
theorem refused {c : Condition} {r : Rejection} (hfails : ¬ c.holds)
    (hrefusal : ∀ r', c.refusal r' ↔ r' = r) (hkind : r.kind = c.kind) :
    Judges (.error r) [c] result where
  ok b := iff_of_false nofun fun h => hfails (h.1 c (List.mem_singleton_self c))
  error r' := by
    show _ ↔ ¬ c.holds ∧ c.refusal r' ∧ r'.kind = c.kind ∨ c.holds ∧ False
    rw [and_false, or_false, and_iff_right hfails, hrefusal]
    constructor
    · intro h
      cases h
      exact ⟨rfl, hkind⟩
    · rintro ⟨rfl, -⟩
      rfl

/-- One check after another. -/
theorem bind {f : α → Except Rejection β} {more : List Condition} {result' : α → β → Prop}
    (h : Judges x conditions result) (hf : ∀ a, result a → Judges (f a) more (result' a)) :
    Judges (x >>= f) (conditions ++ more) fun b => ∃ a, result a ∧ result' a b where
  ok b := by
    rw [bind_eq_ok, List.forall_mem_append]
    constructor
    · rintro ⟨a, hx, hb⟩
      obtain ⟨hall, ha⟩ := (h.ok a).mp hx
      obtain ⟨hmore, hb⟩ := ((hf a ha).ok b).mp hb
      exact ⟨⟨hall, hmore⟩, a, ha, hb⟩
    · rintro ⟨⟨hall, hmore⟩, a, ha, hb⟩
      exact ⟨a, (h.ok a).mpr ⟨hall, ha⟩, ((hf a ha).ok b).mpr ⟨hmore, hb⟩⟩
  error r := by
    rw [firstFailure_append, ← h.error, ← h.exists_ok]
    cases hx : x with
    | error r' => simp [Bind.bind, Except.bind]
    | ok a =>
      have ha := ((h.ok a).mp hx).2
      show f a = .error r ↔ _
      rw [(hf a ha).error]
      simp

/-- A result made into another. -/
theorem map (h : Judges x conditions result) (f : α → β) :
    Judges (x >>= fun a => .ok (f a)) conditions fun b => ∃ a, result a ∧ b = f a := by
  have hmap := h.bind fun a _ => pure (f a)
  rw [List.append_nil] at hmap
  exact hmap

/-- The check of what is spelled, if only one thing is. -/
theorem passes {kind : Rejection.Kind} {spelled : α → Prop} (check : α → Except Rejection Unit)
    (hunique : ∀ a b, spelled a → spelled b → a = b)
    (hkind : ∀ a r, check a = .error r → r.kind = kind) (a : α) (ha : spelled a) :
    Judges (check a) [.passes kind spelled check] fun _ => check a = .ok () := by
  cases hcheck : check a with
  | ok => exact .accepted ⟨a, ha, hcheck⟩ fun _ => iff_of_true rfl rfl
  | error r =>
    refine .refused ?_ (fun r' => ?_) (hkind a r hcheck)
    · rintro ⟨b, hb, hok⟩
      cases hunique a b ha hb
      exact nomatch hok.symm.trans hcheck
    · constructor
      · rintro ⟨b, hb, hr⟩
        cases hunique a b ha hb
        exact Except.error.inj (hr.symm.trans hcheck)
      · rintro rfl
        exact ⟨a, ha, hcheck⟩

/-- A result is checked before it is handed on. -/
theorem checked {kind : Rejection.Kind} {check : α → Except Rejection Unit}
    (h : Judges x conditions result) (hunique : ∀ a b, result a → result b → a = b)
    (hkind : ∀ a r, check a = .error r → r.kind = kind) :
    Judges (x >>= fun a => check a >>= fun _ => Except.ok a)
      (conditions ++ [.passes kind result check]) fun a => result a ∧ check a = .ok () := by
  have hcheck : ∀ a, result a → Judges (check a >>= fun _ => Except.ok a)
      [.passes kind result check] fun b => check a = .ok () ∧ b = a := fun a ha =>
    ((passes check hunique hkind a ha).bind fun _ _ => pure a).congr fun b =>
      ⟨fun ⟨_, hb⟩ => hb, fun hb => ⟨(), hb⟩⟩
  refine (h.bind hcheck).congr fun b => ?_
  constructor
  · rintro ⟨a, ha, hok, rfl⟩
    exact ⟨ha, hok⟩
  · rintro ⟨hb, hok⟩
    exact ⟨b, hb, hok, rfl⟩

end Judges

end Placement
