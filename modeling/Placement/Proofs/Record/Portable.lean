import Placement.Proofs.Double.Fields
import Placement.Proofs.Record.Ranges
import Placement.Scoring.Choice
/-
  What a request loses on the wire. JSON has no infinity, so storage that is infinite arrives as
  storage that is unbounded (`System.portable`). `validate_portable`, `infeasibility?_portable`,
  `Tuning.assess_portable`: to the checks, to the gate and to both scorers that is the same, given a
  valid context; every bid stays what it is (`Tuning.bid_portable`).
-/
namespace Placement

/-- A system as it arrives: storage that is not finite is unbounded. -/
def System.portable (s : System) : System := { s with storage := s.storage.filter Float.isFinite }

/-- A request as it arrives. -/
def BidRequest.portable (r : BidRequest) : BidRequest := { r with system := r.system.portable }

namespace System

@[simp] theorem portable_name (s : System) : s.portable.name = s.name := rfl
@[simp] theorem portable_site (s : System) : s.portable.site = s.site := rfl
@[simp] theorem portable_type (s : System) : s.portable.type = s.type := rfl
@[simp] theorem portable_nodes (s : System) : s.portable.nodes = s.nodes := rfl
@[simp] theorem portable_nodeMemory (s : System) : s.portable.nodeMemory = s.nodeMemory := rfl
@[simp] theorem portable_hasGpu (s : System) : s.portable.hasGpu = s.hasGpu := rfl
@[simp] theorem portable_nodeSpeed (s : System) : s.portable.nodeSpeed = s.nodeSpeed := rfl

/-- The numbers of a system can be written: they are finite, and storage may be infinite. -/
structure Writable (s : System) : Prop where
  nodeMemory : s.nodeMemory.isFinite = true
  storage : ∀ x, s.storage = some x → x.isFinite = true ∨ x = 1 / 0
  nodeSpeed : s.nodeSpeed.isFinite = true

/-- Infinite storage is in range, as unbounded storage is. -/
theorem checkStorage_filter {storage : Option Float}
    (h : ∀ x, storage = some x → x.isFinite = true ∨ x = 1 / 0) :
    checkStorage (storage.filter Float.isFinite) = checkStorage storage := by
  cases storage with
  | none => rfl
  | some x =>
    rcases h x rfl with hx | rfl
    · rw [Option.filter, if_pos hx]
    · rfl

variable {s : System}

/-- A system passes its check on arrival, or fails it in the same words. -/
theorem validate_portable_eq (h : s.Writable) : s.portable.validate = s.validate := by
  unfold validate check
  rw [show s.portable.storage = s.storage.filter Float.isFinite from rfl,
    checkStorage_filter h.storage]
  rfl

variable (h : s.validate = .ok ())
include h

theorem writable_of_validate : s.Writable := by
  obtain ⟨-, -, ⟨hmemory, -⟩, hstorage, hspeed, -⟩ := validate_eq_ok.mp h
  refine ⟨hmemory, fun x hx => ?_, hspeed⟩
  obtain ⟨hn, h0⟩ := hstorage x hx
  cases hf : x.isFinite with
  | true => exact .inl rfl
  | false => exact .inr (Double.eq_infinity hf hn h0)

/-- The capacity of a valid system is the one it has on arrival. -/
theorem storageCapacity_portable : s.portable.storageCapacity = s.storageCapacity := by
  obtain ⟨-, -, -, hstorage, -⟩ := validate_eq_ok.mp h
  unfold storageCapacity portable
  cases hs : s.storage with
  | none => rfl
  | some x =>
    obtain ⟨hn, h0⟩ := hstorage x hs
    cases hf : x.isFinite with
    | true => simp [Option.filter, hf]
    | false =>
      simp only [Option.filter, hf, Bool.false_eq_true, if_false]
      exact (Double.eq_infinity hf hn h0).symm

/-- A valid system is valid on arrival. -/
theorem validate_portable : s.portable.validate = .ok () :=
  (validate_portable_eq (writable_of_validate h)).trans h

end System

namespace Context

/-- A context as it is on arrival. -/
def portable (c : Context) : Context where
  job := c.job
  system := c.system.portable
  status := c.status
  now := c.now
  jobValid := c.jobValid
  systemValid := System.validate_portable c.systemValid
  statusValid := c.statusValid
  clockValid := c.clockValid

@[simp] theorem portable_job (c : Context) : c.portable.job = c.job := rfl
@[simp] theorem portable_system (c : Context) : c.portable.system = c.system.portable := rfl
@[simp] theorem portable_status (c : Context) : c.portable.status = c.status := rfl
@[simp] theorem portable_now (c : Context) : c.portable.now = c.now := rfl

/-- The gate says the same on arrival. -/
theorem infeasibility?_portable (c : Context) (check : NodeCheck) :
    c.portable.infeasibility? check = c.infeasibility? check := by
  have hlimit : check.limit c.system.portable c.status = check.limit c.system c.status := by
    cases check <;> rfl
  have hmemory : c.system.portable.totalMemory = c.system.totalMemory := by
    unfold System.totalMemory
    rw [System.portable_nodeMemory, System.portable_nodes]
  have hstorage := System.storageCapacity_portable c.systemValid
  unfold infeasibility? Placement.infeasibility?
  rw [portable_job, portable_system, portable_status, hlimit, System.portable_hasGpu, hmemory,
    hstorage]

end Context

/-- A request with a context has it on arrival. -/
theorem BidRequest.context_portable {r : BidRequest} {c : Context} (h : r.context = .ok c) :
    r.portable.context = .ok c.portable := by
  obtain ⟨hjob, hsystem, hstatus, hnow⟩ := Context.of_eq_ok.mp h
  refine Context.of_eq_ok.mpr ⟨hjob, ?_, hstatus, hnow⟩
  exact congrArg System.portable hsystem

theorem Embedding.storageFeature_portable (t : EmbeddingTuning) (s : System) :
    storageFeature t s.portable = storageFeature t s := by
  unfold storageFeature System.portable
  cases hs : s.storage with
  | none => rfl
  | some x => cases hf : x.isFinite <;> simp [Option.filter, hf]

/-- The slots of a system are those on arrival; only storage is read another way. -/
theorem Embedding.systemFeatures_portable (curves : Curves Float) (t : EmbeddingTuning)
    (s : System) : systemFeatures curves t s.portable = systemFeatures curves t s :=
  congrArg (fun storage => features t
    #v[logScaled curves (Scalar.ofCount s.nodes) (Scalar.ofFloat t.systemCaps.nodes),
      logScaled curves (Scalar.ofFloat s.nodeSpeed) (Scalar.ofFloat t.systemCaps.nodeSpeed),
      logScaled curves (Scalar.ofFloat s.nodeMemory) (Scalar.ofFloat t.systemCaps.memory),
      logScaled curves (Scalar.ofFloat storage) (Scalar.ofFloat t.systemCaps.storage),
      flag s.hasGpu]
    s.type s.site) (storageFeature_portable t s)

theorem Embedding.similarity_portable (curves : Curves Float) (t : EmbeddingTuning) (job : Job)
    (s : System) : similarity curves t job s.portable = similarity curves t job s := by
  unfold similarity ofSystem
  simp only [systemFeatures_portable]

theorem Embedding.dynamic_portable (curves : Curves Float) (t : EmbeddingTuning) (c : Context) :
    dynamic curves t c.portable = dynamic curves t c := by
  unfold dynamic slowdown Context.wait
  simp only [Context.portable_job, Context.portable_system, Context.portable_status,
    Context.portable_now, System.portable_nodeSpeed]

theorem Heuristic.utilization_portable (s : System) (status : Status) :
    utilization s.portable status = utilization s status := by
  unfold utilization Status.busy
  rw [System.portable_nodes]

theorem Heuristic.siteFactor_portable (t : HeuristicTuning) (job : Job) (s : System) :
    siteFactor t job s.portable = siteFactor t job s := by
  unfold siteFactor
  rw [System.portable_site, System.portable_name]

theorem Heuristic.factors_portable (curves : Curves Float) (t : HeuristicTuning) (c : Context) :
    factors curves t c.portable = factors curves t c := by
  unfold factors Context.expectedWait Context.wait
  rw [Context.portable_job, Context.portable_system, Context.portable_status, Context.portable_now,
    utilization_portable, siteFactor_portable, System.portable_type]

/-- Either scorer makes the same of a context on arrival. -/
theorem Tuning.assess_portable (curves : Curves Float) (t : Tuning) (kind : ScorerKind)
    (c : Context) :
    (t.scorerOf curves kind).assess c.portable = (t.scorerOf curves kind).assess c := by
  cases kind with
  | heuristic =>
    unfold scorerOf Heuristic.scorer Scorer.gated
    simp only [c.infeasibility?_portable, Heuristic.factors_portable]
  | embedding =>
    unfold scorerOf Embedding.scorer Scorer.gated Embedding.value
    simp only [c.infeasibility?_portable, Context.portable_job, Context.portable_system,
      Embedding.similarity_portable, Embedding.dynamic_portable]

/-- A bid on a context stays what it is on arrival. -/
theorem Tuning.bid_portable (curves : Curves Float) (t : Tuning) (kind : ScorerKind)
    (c : Context) (seconds : Float) :
    (t.scorerOf curves kind).bid c.portable seconds = (t.scorerOf curves kind).bid c seconds := by
  unfold Scorer.bid
  rw [t.assess_portable]

end Placement
