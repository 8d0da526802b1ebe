import Placement.Proofs.Rules
import Placement.Proofs.Tuning.Ranges
/-
  What the check of a tuning reports. `Tuning.rules` lists the ranges in the order in which the
  check makes them. `checks_check`: the first broken one is the breach, and its message starts with
  the key that it is about (`Breach.exists_message_eq`). `check_eq_ok_iff_inRange`: it passes
  exactly the tunings in range.
-/
namespace Placement.Tuning

open Double (IsLevel)

/-- The key that a breach is about. -/
def Breach.key : Breach → String
  | .outsideUnit key _ | .negative key _ | .notPositive key _ => key
  | .tooPrecise _ => "heuristic.precision"
  | .noTimeout => "external.timeout_secs"

/-- A message starts with the key. -/
theorem Breach.exists_message_eq (b : Breach) : ∃ told, b.message = b.key ++ told := by
  cases b with
  | outsideUnit key value => exact ⟨_, String.append_assoc ..⟩
  | negative key value => exact ⟨_, String.append_assoc ..⟩
  | notPositive key value => exact ⟨_, String.append_assoc ..⟩
  | tooPrecise places =>
    refine ⟨" must be at most 12, got " ++ Decimal.digitText places.toNat, ?_⟩
    rw [← String.append_assoc]
    rfl
  | noTimeout => exact ⟨" must be positive", rfl⟩

/-- Rules for values under their keys. -/
def rulesFor (inRange : Float → Prop) (breach : String → Float → Breach)
    (values : List (String × Float)) : List (Prop × Breach) :=
  values.map fun entry => (¬ inRange entry.2, breach entry.1 entry.2)

/-- When a tuning breaks a rule, and what the breach is: levels, decay, precision, caps, weights,
timeout. -/
def rules (t : Tuning) : List (Prop × Breach) :=
  rulesFor IsLevel .outsideUnit (levels t.heuristic)
    ++ (rulesFor IsWeight .negative [("heuristic.delay_decay", t.heuristic.delayDecay)]
    ++ (12 < t.heuristic.precision, .tooPrecise t.heuristic.precision)
    :: (rulesFor IsCap .notPositive (caps t.embedding)
    ++ (rulesFor IsWeight .negative (weights t.embedding)
    ++ [(t.external.timeoutSeconds = 0, .noTimeout)])))

theorem checks_checkAll {test : Float → Bool} {inRange : Float → Prop}
    (htest : ∀ x, test x = true ↔ inRange x) (breach : String → Float → Breach)
    (values : List (String × Float)) :
    Checks (rulesFor inRange breach values) (checkAll test breach values) := by
  induction values with
  | nil => exact .nil
  | cons entry rest ih =>
    have hcons : checkAll test breach (entry :: rest) = if test entry.2 = false then
        .error (breach entry.1 entry.2) else checkAll test breach rest := by
      unfold checkAll
      rw [List.find?_cons]
      cases test entry.2 <;> rfl
    rw [hcons]
    refine ih.cons ?_
    rw [← htest, Bool.not_eq_true]

/-- The check of a tuning reports the first rule that is broken. -/
theorem checks_check (t : Tuning) : Checks t.rules t.check := by
  refine (checks_checkAll (fun _ => isLevel_iff) _ _).seq ?_
  refine (checks_checkAll (fun _ => isWeight_iff) _ _).seq ?_
  refine Checks.cons Iff.rfl ?_
  refine (checks_checkAll (fun _ => isCap_iff) _ _).seq ?_
  refine (checks_checkAll (fun _ => isWeight_iff) _ _).seq ?_
  exact Checks.nil.cons Iff.rfl

/-- A tuning passes when all of its values are in range. -/
theorem check_eq_ok_iff_inRange {t : Tuning} : t.check = .ok () ↔
    t.heuristic.InRange ∧ t.embedding.InRange ∧ t.external.timeoutSeconds ≠ 0 := by
  constructor
  · intro h
    exact ⟨inRange h, embedding_inRange h, (check_eq_ok.mp h).2.2.2.2.2⟩
  · rintro ⟨h, h', htimeout⟩
    refine check_eq_ok.mpr ⟨?_, ?_, ?_, ?_, ?_, htimeout⟩
    · simp only [levels, List.forall_mem_cons, isLevel_iff]
      exact ⟨h.exactType, h.compatibleType, h.storageMismatch, h.defaultType, h.sameSystem,
        h.sameSite, h.crossSite, h.queueStep, h.queueFloor, h.delayFloor,
        fun _ h => absurd h List.not_mem_nil⟩
    · exact isWeight_iff.mpr ⟨h.delayDecay_finite, h.delayDecay_nonneg⟩
    · exact UInt32.not_lt.mpr (UInt32.le_iff_toNat_le.mpr h.precision_le)
    · simp only [caps, List.forall_mem_cons, isCap_iff]
      exact ⟨h'.jobNodes, h'.jobWalltime, h'.jobMemory, h'.jobStorage, h'.systemNodes,
        h'.systemSpeed, h'.systemMemory, h'.systemStorage, h'.unboundedStorage, h'.baselineSpeed,
        fun _ h => absurd h List.not_mem_nil⟩
    · simp only [weights, List.forall_mem_cons, isWeight_iff]
      exact ⟨h'.numericWeight, h'.typeWeight, h'.siteWeight, h'.staticWeight, h'.dynamicWeight,
        h'.headroomWeight, h'.slowdownWeight, fun _ h => absurd h List.not_mem_nil⟩

end Placement.Tuning
