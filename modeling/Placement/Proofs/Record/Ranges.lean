import Placement.Context
import Placement.Proofs.Except
/-
  What the checks of the records come to. `Job.validate_eq_ok`, `System.validate_eq_ok` and
  `Status.validate_eq_ok`: a record is valid exactly when its fields are in range.
  `Context.of_eq_ok`: a context holds the very records it was made of, and all of them are valid.
-/
namespace Placement

/-! ## Fields -/

theorem requireFinite_eq_ok {field : String} {x : Float} :
    requireFinite field x = .ok () ↔ x.isFinite = true := by
  unfold requireFinite
  split <;> simp [*]

theorem requireNonNegative_eq_ok {field : String} {x : Float} :
    requireNonNegative field x = .ok () ↔ x.isFinite = true ∧ ¬ x < 0 := by
  unfold requireNonNegative
  rw [seq_eq_ok, requireFinite_eq_ok, guard_eq_ok]

theorem requirePositive_eq_ok {field : String} {x : Float} :
    requirePositive field x = .ok () ↔ x.isFinite = true ∧ ¬ x ≤ 0 := by
  unfold requirePositive
  rw [seq_eq_ok, requireFinite_eq_ok, guard_eq_ok]

/-- Storage may be infinite, but is a number that is not negative. -/
theorem System.checkStorage_eq_ok {storage : Option Float} :
    System.checkStorage storage = .ok () ↔ ∀ x, storage = some x → x.isNaN = false ∧ ¬ x < 0 := by
  unfold checkStorage
  cases storage with
  | none => simp
  | some x => by_cases hx : x < 0 <;> cases x.isNaN <;> simp [hx]

/-! ## Records -/

theorem Job.validate_eq_ok {job : Job} :
    job.validate = .ok () ↔ job.nodes ≠ 0 ∧ job.submitted.isFinite = true ∧
      job.walltime.isFinite = true ∧ (job.memory.isFinite = true ∧ ¬ job.memory < 0) ∧
      job.storage.isFinite = true ∧ ¬ job.storage < 0 := by
  unfold validate check
  rw [mapError_eq_ok]
  dsimp only
  rw [guard_seq_eq_ok, seq_eq_ok, seq_eq_ok, seq_eq_ok, requireFinite_eq_ok, requireFinite_eq_ok,
    requireNonNegative_eq_ok, requireNonNegative_eq_ok]

theorem System.validate_eq_ok {system : System} :
    system.validate = .ok () ↔ system.name.isEmpty = false ∧ system.nodes ≠ 0 ∧
      (system.nodeMemory.isFinite = true ∧ ¬ system.nodeMemory < 0) ∧
      (∀ x, system.storage = some x → x.isNaN = false ∧ ¬ x < 0) ∧
      system.nodeSpeed.isFinite = true ∧ ¬ system.nodeSpeed ≤ 0 := by
  unfold validate check
  rw [mapError_eq_ok]
  dsimp only
  rw [guard_seq_eq_ok, guard_seq_eq_ok, seq_eq_ok, seq_eq_ok, requireNonNegative_eq_ok,
    checkStorage_eq_ok, requirePositive_eq_ok, Bool.not_eq_true]

theorem Status.validate_eq_ok {status : Status} {system : System} :
    status.validate system = .ok () ↔
      status.startEstimate.isFinite = true ∧ ¬ system.nodes < status.available := by
  unfold validate check
  rw [mapError_eq_ok]
  dsimp only
  rw [guard_seq_eq_ok, guard_eq_ok]
  simp

theorem checkClock_eq_ok {now : Float} : checkClock now = .ok () ↔ now.isFinite = true := by
  unfold checkClock
  split <;> simp [*]

theorem checkClock_zero : checkClock 0 = .ok () := rfl

/-! ## Contexts -/

namespace Context

/-- The records of a context make it up again. -/
theorem of_self (c : Context) : Context.of c.job c.system c.status c.now = .ok c := by
  unfold Context.of
  split
  · rename_i h
    rw [c.jobValid] at h
    exact nomatch h
  split
  · rename_i h
    rw [c.systemValid] at h
    exact nomatch h
  split
  · rename_i h
    rw [c.statusValid] at h
    exact nomatch h
  split
  · rename_i h
    rw [c.clockValid] at h
    exact nomatch h
  · rfl

/-- A context is refused for the first of its checks that fails. -/
theorem map_of {α : Type} (job : Job) (system : System) (status : Status) (now : Float) (a : α) :
    (Context.of job system status now).map (fun _ => a) = (do
      job.validate
      system.validate
      status.validate system
      checkClock now
      return a) := by
  unfold Context.of
  split
  · rename_i hjob
    rw [hjob]
    rfl
  rename_i hjob
  split
  · rename_i hsystem
    rw [hjob, hsystem]
    rfl
  rename_i hsystem
  split
  · rename_i hstatus
    rw [hjob, hsystem, hstatus]
    rfl
  rename_i hstatus
  split
  · rename_i hclock
    rw [hjob, hsystem, hstatus, hclock]
    rfl
  · rename_i hclock
    show Except.ok a = _
    rw [hjob, hsystem, hstatus, hclock]
    rfl

/-- Between a valid job and a valid clock a context is refused for the system, or else for the
status. -/
theorem of_eq_error {job : Job} {system : System} {status : Status} {now : Float} {r : Rejection}
    (hjob : job.validate = .ok ()) (hclock : checkClock now = .ok ()) :
    Context.of job system status now = .error r ↔
      system.validate = .error r ∨
        system.validate = .ok () ∧ status.validate system = .error r := by
  rw [← map_eq_error (f := fun _ => ()), map_of, hjob, hclock, ok_bind, seq_eq_error, seq_eq_error]
  refine or_congr_right (and_congr_right fun _ => or_iff_left ?_)
  rintro ⟨-, h⟩
  exact nomatch h

/-- A context is made of valid records exactly, and holds them. -/
theorem of_eq_ok {job : Job} {system : System} {status : Status} {now : Float} {c : Context} :
    Context.of job system status now = .ok c ↔
      c.job = job ∧ c.system = system ∧ c.status = status ∧ c.now = now := by
  constructor
  · intro h
    unfold Context.of at h
    split at h
    · exact nomatch h
    split at h
    · exact nomatch h
    split at h
    · exact nomatch h
    split at h
    · exact nomatch h
    · cases h
      exact ⟨rfl, rfl, rfl, rfl⟩
  · rintro ⟨rfl, rfl, rfl, rfl⟩
    exact c.of_self

end Context

end Placement
