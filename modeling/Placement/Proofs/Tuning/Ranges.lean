import Placement.Proofs.Double.Level
import Placement.Proofs.Except
import Placement.Tuning.Document
/-
  What the check of a tuning comes to. `Tuning.inRange` and `Tuning.embedding_inRange`: a tuning
  that passes it has each of its values in range (`HeuristicTuning.InRange`,
  `EmbeddingTuning.InRange`). `Tuning.check_eq_ok` is the check as its list of tests.
-/
namespace Placement

open Double (IsLevel)

namespace Tuning

theorem checkAll_eq_ok {test : Float → Bool} {breach : String → Float → Breach}
    {values : List (String × Float)} :
    checkAll test breach values = .ok () ↔ ∀ entry ∈ values, test entry.2 = true := by
  unfold checkAll
  constructor
  · intro h
    have hnone : values.find? (fun entry => !test entry.2) = none := by
      cases hfind : values.find? fun entry => !test entry.2 with
      | none => rfl
      | some entry =>
        rw [hfind] at h
        exact nomatch h
    intro entry hentry
    simpa using List.find?_eq_none.mp hnone entry hentry
  · intro h
    rw [List.find?_eq_none.mpr fun entry hentry => by simp [h entry hentry]]

/-- A tuning is accepted exactly when each of its values is in range. -/
theorem check_eq_ok {t : Tuning} :
    t.check = .ok () ↔ (∀ entry ∈ levels t.heuristic, isLevel entry.2 = true) ∧
      isWeight t.heuristic.delayDecay = true ∧ ¬ 12 < t.heuristic.precision ∧
      (∀ entry ∈ caps t.embedding, isCap entry.2 = true) ∧
      (∀ entry ∈ weights t.embedding, isWeight entry.2 = true) ∧
      t.external.timeoutSeconds ≠ 0 := by
  unfold check
  rw [seq_eq_ok, seq_eq_ok]
  dsimp only
  rw [guard_seq_eq_ok, seq_eq_ok, seq_eq_ok, guard_eq_ok]
  simp only [checkAll_eq_ok, List.forall_mem_singleton]

theorem isLevel_iff {x : Float} : isLevel x = true ↔ IsLevel x := by
  unfold isLevel
  rw [Bool.and_eq_true, Bool.and_eq_true, decide_eq_true_iff, decide_eq_true_iff]
  constructor
  · rintro ⟨⟨-, h0⟩, h1⟩
    exact ⟨h0, h1⟩
  · intro h
    exact ⟨⟨h.isFinite, h.zero_le⟩, h.le_one⟩

end Tuning

/-- The values that the heuristic is tuned with are in range. -/
structure HeuristicTuning.InRange (t : HeuristicTuning) : Prop where
  exactType : IsLevel t.exactType
  compatibleType : IsLevel t.compatibleType
  storageMismatch : IsLevel t.storageMismatch
  defaultType : IsLevel t.defaultType
  sameSystem : IsLevel t.sameSystem
  sameSite : IsLevel t.sameSite
  crossSite : IsLevel t.crossSite
  queueStep : IsLevel t.queueStep
  queueFloor : IsLevel t.queueFloor
  delayFloor : IsLevel t.delayFloor
  delayDecay_finite : t.delayDecay.isFinite = true
  delayDecay_nonneg : 0 ≤ t.delayDecay
  precision_le : t.precision.toNat ≤ 12

/-- An accepted tuning has a heuristic in range. -/
theorem Tuning.inRange {t : Tuning} (h : t.check = .ok ()) : t.heuristic.InRange := by
  obtain ⟨hlevels, hdecay, hprecision, -⟩ := check_eq_ok.mp h
  have hlevel : ∀ entry ∈ levels t.heuristic, IsLevel entry.2 :=
    fun entry hentry => isLevel_iff.mp (hlevels entry hentry)
  unfold isWeight at hdecay
  rw [Bool.and_eq_true, decide_eq_true_iff] at hdecay
  simp only [levels, List.forall_mem_cons] at hlevel
  obtain ⟨h1, h2, h3, h4, h5, h6, h7, h8, h9, h10, -⟩ := hlevel
  refine ⟨h1, h2, h3, h4, h5, h6, h7, h8, h9, h10, hdecay.1, hdecay.2, ?_⟩
  have hle := UInt32.le_iff_toNat_le.mp (UInt32.not_lt.mp hprecision)
  exact hle

/-! ## The embedding -/

/-- Where a feature may saturate. -/
structure IsCap (x : Float) : Prop where
  isFinite : x.isFinite = true
  pos : 0 < x

/-- What a term may be weighted with. -/
structure IsWeight (x : Float) : Prop where
  isFinite : x.isFinite = true
  nonneg : 0 ≤ x

theorem IsCap.value_pos {x : Float} (h : IsCap x) : 0 < Double.value x :=
  (Double.denotes_zero.lt_iff (.of_isNaN (Double.isNaN_of_isFinite h.isFinite))).mp h.pos

theorem IsWeight.value_nonneg {x : Float} (h : IsWeight x) : 0 ≤ Double.value x :=
  (Double.denotes_zero.le_iff (.of_isNaN (Double.isNaN_of_isFinite h.isFinite))).mp h.nonneg

theorem Tuning.isCap_iff {x : Float} : isCap x = true ↔ IsCap x := by
  unfold isCap
  rw [Bool.and_eq_true, decide_eq_true_iff]
  exact ⟨fun ⟨hfinite, hpos⟩ => ⟨hfinite, hpos⟩, fun ⟨hfinite, hpos⟩ => ⟨hfinite, hpos⟩⟩

theorem Tuning.isWeight_iff {x : Float} : isWeight x = true ↔ IsWeight x := by
  unfold isWeight
  rw [Bool.and_eq_true, decide_eq_true_iff]
  exact ⟨fun ⟨hfinite, hnonneg⟩ => ⟨hfinite, hnonneg⟩,
    fun ⟨hfinite, hnonneg⟩ => ⟨hfinite, hnonneg⟩⟩

/-- The values that the embedding is tuned with are in range. -/
structure EmbeddingTuning.InRange (t : EmbeddingTuning) : Prop where
  jobNodes : IsCap t.jobCaps.nodes
  jobWalltime : IsCap t.jobCaps.walltime
  jobMemory : IsCap t.jobCaps.memory
  jobStorage : IsCap t.jobCaps.storage
  systemNodes : IsCap t.systemCaps.nodes
  systemSpeed : IsCap t.systemCaps.nodeSpeed
  systemMemory : IsCap t.systemCaps.memory
  systemStorage : IsCap t.systemCaps.storage
  unboundedStorage : IsCap t.unboundedStorage
  baselineSpeed : IsCap t.baselineSpeed
  numericWeight : IsWeight t.numericWeight
  typeWeight : IsWeight t.typeWeight
  siteWeight : IsWeight t.siteWeight
  staticWeight : IsWeight t.staticWeight
  dynamicWeight : IsWeight t.dynamicWeight
  headroomWeight : IsWeight t.headroomWeight
  slowdownWeight : IsWeight t.slowdownWeight

/-- An accepted tuning has an embedding in range. -/
theorem Tuning.embedding_inRange {t : Tuning} (h : t.check = .ok ()) : t.embedding.InRange := by
  obtain ⟨-, -, -, hcaps, hweights, -⟩ := check_eq_ok.mp h
  have hcap : ∀ entry ∈ caps t.embedding, IsCap entry.2 :=
    fun entry hentry => isCap_iff.mp (hcaps entry hentry)
  have hweight : ∀ entry ∈ weights t.embedding, IsWeight entry.2 :=
    fun entry hentry => isWeight_iff.mp (hweights entry hentry)
  simp only [caps, List.forall_mem_cons] at hcap
  simp only [weights, List.forall_mem_cons] at hweight
  obtain ⟨c1, c2, c3, c4, c5, c6, c7, c8, c9, c10, -⟩ := hcap
  obtain ⟨w1, w2, w3, w4, w5, w6, w7, -⟩ := hweight
  exact ⟨c1, c2, c3, c4, c5, c6, c7, c8, c9, c10, w1, w2, w3, w4, w5, w6, w7⟩

end Placement
