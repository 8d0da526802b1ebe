import Placement.Feasibility
import Placement.Proofs.Double.Level
import Placement.Proofs.Double.Positive
import Placement.Proofs.Record.Ranges
import Placement.Proofs.Rules
/-
  The gate before every scorer. `gateRules` lists five rules, each with the reason that it gives.

  * `infeasibility?_eq_none`, `infeasibility?_eq_some`: the gate passes a job exactly when no rule
    is broken, and otherwise reports the first broken one with what was compared. A comparison with
    what is no number breaks no rule, and storage that is not given is never exceeded.
  * `passes_mono`: asking for less (`Job.Lighter`) or offering more (`System.Ampler`) breaks no
    rule, GIVEN that both systems are valid. The memory of all nodes is a rounded product, which may
    run over into infinity and keeps the order all the same.
  * `passes_total`: a job that passes by available nodes passes by all nodes, GIVEN a valid status.
  * `gate_is_first_broken_rule`: all of it.
-/
namespace Placement

open Double

/-! ## The rules -/

/-- Both are numbers, and the first is above the second. -/
def Exceeds (x y : Float) : Prop :=
  x.isNaN = false ∧ y.isNaN = false ∧ Double.value y < Double.value x

/-- A number that is not above 0. -/
def IsNonPositive (x : Float) : Prop := x.isNaN = false ∧ Double.value x ≤ 0

theorem exceeds_iff {x y : Float} : Exceeds x y ↔ y < x := by
  constructor
  · rintro ⟨hx, hy, h⟩
    exact (lt_iff_value hy hx).mpr h
  · intro h
    obtain ⟨hy, hx⟩ := isNaN_of_lt h
    exact ⟨hx, hy, (lt_iff_value hy hx).mp h⟩

theorem isNonPositive_iff {x : Float} : IsNonPositive x ↔ x ≤ 0 := by
  constructor
  · rintro ⟨hx, h⟩
    exact (le_iff_value hx rfl).mpr h
  · intro h
    have hx := (isNaN_of_le h).1
    exact ⟨hx, (le_iff_value hx rfl).mp h⟩

/-- Nothing exceeds storage that is not given. -/
theorem exceeds_storageCapacity_iff {x : Float} {system : System} :
    Exceeds x system.storageCapacity ↔
      ∃ storage, system.storage = some storage ∧ Exceeds x storage := by
  unfold System.storageCapacity
  cases system.storage with
  | none =>
    refine iff_of_false ?_ nofun
    rintro ⟨-, -, h⟩
    rw [Option.getD_none, value_infinity] at h
    exact absurd h (not_lt.mpr ((le_abs_self _).trans (abs_value_le x)))
  | some storage => simp

/-- When a job breaks a rule of the gate, and the reason that is reported then: nodes, GPU, memory,
storage, walltime. -/
def gateRules (check : NodeCheck) (job : Job) (system : System) (status : Status) :
    List (Prop × Infeasibility) := [
  (check.limit system status < job.nodes,
    .tooManyNodes job.nodes (check.limit system status)),
  (job.needsGpu = true ∧ system.hasGpu = false, .gpuUnavailable),
  (Exceeds job.memory system.totalMemory, .insufficientMemory job.memory system.totalMemory),
  (∃ storage, system.storage = some storage ∧ Exceeds job.storage storage,
    .insufficientStorage job.storage system.storageCapacity),
  (IsNonPositive job.walltime, .nonPositiveWalltime job.walltime)]

section Rules

variable {check : NodeCheck} {job : Job} {system : System} {status : Status}

/-- The gate reports the first rule that is broken. -/
theorem infeasibility?_eq_some {reason : Infeasibility} :
    infeasibility? check job system status = some reason ↔
      FirstBroken (gateRules check job system status) reason := by
  unfold infeasibility? gateRules
  rw [firstBroken_cons, firstBroken_cons, firstBroken_cons, firstBroken_cons, firstBroken_cons,
    ite_eq_some, ite_eq_some, ite_eq_some, ite_eq_some, ite_eq_some, Bool.and_eq_true,
    Bool.not_eq_true', exceeds_iff, ← exceeds_storageCapacity_iff, exceeds_iff, isNonPositive_iff]
  simp only [firstBroken_nil, reduceCtorEq]

/-- The gate passes what breaks no rule. -/
theorem infeasibility?_eq_none :
    infeasibility? check job system status = none ↔
      ¬ check.limit system status < job.nodes ∧ (job.needsGpu && !system.hasGpu) = false ∧
      ¬ system.totalMemory < job.memory ∧ ¬ system.storageCapacity < job.storage ∧
      ¬ job.walltime ≤ 0 := by
  unfold infeasibility?
  rw [ite_eq_none, ite_eq_none, ite_eq_none, ite_eq_none, ite_eq_none, Bool.not_eq_true,
    and_iff_left rfl]

end Rules

/-! ## Asking for less and offering more -/

/-- A job that asks for no more than another, and runs for at least as long. -/
structure Job.Lighter (job' job : Job) : Prop where
  nodes : job'.nodes ≤ job.nodes
  memory : job'.memory ≤ job.memory
  storage : job'.storage ≤ job.storage
  needsGpu : job'.needsGpu = true → job.needsGpu = true
  walltime : job.walltime ≤ job'.walltime

/-- A system that offers at least as much as another. Storage that is not given counts as
infinite. -/
structure System.Ampler (system' system : System) : Prop where
  nodes : system.nodes ≤ system'.nodes
  nodeMemory : system.nodeMemory ≤ system'.nodeMemory
  storage : system.storageCapacity ≤ system'.storageCapacity
  hasGpu : system.hasGpu = true → system'.hasGpu = true

theorem System.isNaN_storageCapacity {system : System} (h : system.validate = .ok ()) :
    system.storageCapacity.isNaN = false := by
  obtain ⟨-, -, -, hstorage, -⟩ := System.validate_eq_ok.mp h
  unfold storageCapacity
  cases hs : system.storage with
  | none => rfl
  | some storage => exact (hstorage storage hs).1

theorem System.Ampler.refl {system : System} (h : system.validate = .ok ()) :
    system.Ampler system where
  nodes := UInt64.le_rfl
  nodeMemory := Double.le_refl (isNaN_of_isFinite (System.validate_eq_ok.mp h).2.2.1.1)
  storage := Double.le_refl (isNaN_storageCapacity h)
  hasGpu := id

section Mono

variable {check : NodeCheck} {job job' : Job} {system system' : System} {status status' : Status}

/-- The memory of all nodes is the double nearest to that of one times the number of nodes. -/
theorem denotes_totalMemory (h : system.validate = .ok ()) : Denotes system.totalMemory
    (rounded (Double.value system.nodeMemory * Double.value system.nodes.toFloat)) :=
  denotes_mul (System.validate_eq_ok.mp h).2.2.1.1 (isFinite_count system.nodes)

/-- More nodes with more memory each have no less memory together. -/
theorem totalMemory_mono (h : system.validate = .ok ()) (h' : system'.validate = .ok ())
    (hampler : system'.Ampler system) : system.totalMemory ≤ system'.totalMemory := by
  obtain ⟨-, -, ⟨hfinite, -⟩, -⟩ := System.validate_eq_ok.mp h
  obtain ⟨-, -, ⟨hfinite', hnonneg'⟩, -⟩ := System.validate_eq_ok.mp h'
  have hmemory := (le_iff_value (isNaN_of_isFinite hfinite) (isNaN_of_isFinite hfinite')).mp
    hampler.nodeMemory
  have hmemory0 := value_nonneg ((not_lt_iff_le (isNaN_of_isFinite hfinite') rfl).mp hnonneg')
  refine ((denotes_totalMemory h).le_iff (denotes_totalMemory h')).mpr (rounded_mono ?_)
  exact mul_le_mul hmemory (value_count_mono hampler.nodes) (value_count_nonneg _) hmemory0

theorem limit_mono (hampler : system'.Ampler system)
    (havailable : status.available ≤ status'.available) :
    check.limit system status ≤ check.limit system' status' := by
  cases check with
  | total => exact hampler.nodes
  | available => exact havailable

/-- What passes the gate still does when it asks for less and is offered more. -/
theorem passes_mono (h : system.validate = .ok ()) (h' : system'.validate = .ok ())
    (hlighter : job'.Lighter job) (hampler : system'.Ampler system)
    (havailable : status.available ≤ status'.available)
    (hpass : infeasibility? check job system status = none) :
    infeasibility? check job' system' status' = none := by
  obtain ⟨hnodes, hgpu, hmemory, hstorage, hwalltime⟩ := infeasibility?_eq_none.mp hpass
  refine infeasibility?_eq_none.mpr ⟨?_, ?_, ?_, ?_, ?_⟩
  · rw [UInt64.not_lt] at hnodes ⊢
    exact UInt64.le_trans hlighter.nodes
      (UInt64.le_trans hnodes (limit_mono hampler havailable))
  · cases hneeds : job'.needsGpu with
    | false => rfl
    | true =>
      rw [hlighter.needsGpu hneeds] at hgpu
      rw [hampler.hasGpu (by simpa using hgpu)]
      rfl
  · exact fun hlt => hmemory
      (lt_of_le_of_lt (totalMemory_mono h h' hampler) (lt_of_lt_of_le hlt hlighter.memory))
  · exact fun hlt => hstorage
      (lt_of_le_of_lt hampler.storage (lt_of_lt_of_le hlt hlighter.storage))
  · exact fun hle => hwalltime (Double.le_trans hlighter.walltime hle)

/-- Where no more nodes are free than there are, what fits the free ones fits the system. -/
theorem passes_total (hstatus : status.validate system = .ok ())
    (hpass : infeasibility? .available job system status = none) :
    infeasibility? .total job system status = none := by
  obtain ⟨hnodes, hrest⟩ := infeasibility?_eq_none.mp hpass
  have havailable := UInt64.not_lt.mp (Status.validate_eq_ok.mp hstatus).2
  refine infeasibility?_eq_none.mpr ⟨?_, hrest⟩
  rw [UInt64.not_lt] at hnodes ⊢
  exact UInt64.le_trans hnodes havailable

end Mono

/-! ## The gate -/

/-- The gate is the disjunction of its rules, and monotone. It passes a job exactly when the job
asks for no more nodes than the limit, finds the GPU that it needs, exceeds neither the memory of
all nodes nor storage where that is given, and has a walltime that is not at or below 0; otherwise
the first of these that fails is the reason, with what was compared. On records in range it goes on
to pass a job that asks for no more, on a system that offers no less; and what fits the free nodes
fits all of them. -/
theorem gate_is_first_broken_rule (check : NodeCheck) (job : Job) (system : System)
    (status : Status) :
    (infeasibility? check job system status = none ↔
      job.nodes ≤ check.limit system status ∧ (job.needsGpu = true → system.hasGpu = true) ∧
      ¬ Exceeds job.memory system.totalMemory ∧
      (∀ storage, system.storage = some storage → ¬ Exceeds job.storage storage) ∧
      ¬ IsNonPositive job.walltime) ∧
    (∀ reason, infeasibility? check job system status = some reason ↔
      FirstBroken (gateRules check job system status) reason) ∧
    (isFeasible job system status = true ↔ infeasibility? .total job system status = none) ∧
    (system.validate = .ok () → ∀ job' system' status', system'.validate = .ok () →
      job'.Lighter job → system'.Ampler system → status.available ≤ status'.available →
      infeasibility? check job system status = none →
      infeasibility? check job' system' status' = none) ∧
    (status.validate system = .ok () → infeasibility? .available job system status = none →
      infeasibility? .total job system status = none) := by
  refine ⟨?_, fun _ => infeasibility?_eq_some, Option.isNone_iff_eq_none,
    fun h _ _ _ h' hlighter hampler havailable => passes_mono h h' hlighter hampler havailable,
    passes_total⟩
  have hgpu : (job.needsGpu && !system.hasGpu) = false ↔
      (job.needsGpu = true → system.hasGpu = true) := by
    cases job.needsGpu <;> cases system.hasGpu <;> simp
  rw [infeasibility?_eq_none, UInt64.not_lt, hgpu, ← exceeds_iff, ← exceeds_iff,
    exceeds_storageCapacity_iff, ← isNonPositive_iff]
  simp only [not_exists, not_and]

/-- A job of three nodes. -/
def threefold : Job := ⟨1, 1, 1, .hpc, 0, 60, 3, true, 48, 10, "north", "a"⟩

/-- A smaller job without a GPU. -/
def slighter : Job := { threefold with nodes := 2, needsGpu := false, memory := 32, walltime := 90 }

/-- A system of four nodes. -/
def modest : System := ⟨"a", "north", .hpc, 4, 16, some 10, true, 1e12, none⟩

/-- A larger one, whose nodes have more memory together than a double can tell. -/
def boundless : System :=
  { modest with nodes := 8, nodeMemory := .ofBits 0x7FEFFFFFFFFFFFFF, storage := none }

theorem gate_is_first_broken_rule_boundless :
    boundless.totalMemory = 1 / 0 ∧
      infeasibility? .available threefold modest ⟨3, 0, 0⟩ = none ∧
      infeasibility? .available slighter boundless ⟨4, 0, 0⟩ = none ∧
      infeasibility? .total threefold modest ⟨3, 0, 0⟩ = none := by
  have hpass : infeasibility? .available threefold modest ⟨3, 0, 0⟩ = none := rfl
  obtain ⟨-, -, -, hmono, htotal⟩ := gate_is_first_broken_rule .available threefold modest ⟨3, 0, 0⟩
  have hlighter : slighter.Lighter threefold :=
    ⟨by decide, by decide +kernel, by decide +kernel, nofun, by decide +kernel⟩
  have hampler : boundless.Ampler modest :=
    ⟨by decide, by decide +kernel, by decide +kernel, fun _ => rfl⟩
  exact ⟨by decide +kernel, hpass,
    hmono rfl slighter boundless ⟨4, 0, 0⟩ rfl hlighter hampler (by decide) hpass,
    htotal rfl hpass⟩

end Placement
