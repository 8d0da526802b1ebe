import Placement.Proofs.Curves
import Placement.Proofs.Double.Zero
import Placement.Proofs.Record.Ranges
import Placement.Scoring.Choice
import Placement.Tuning.Document
/-
  What a bid does not depend on. `Context.SameWork c c'`: the contexts differ at most in who
  submitted the job and when, where it comes from, what the system is called, where it stands and
  how it is connected. The gate and the live term read none of these, the heuristic only its site
  factor and the embedding only its site slots.

  `assess_ignores_origin`: GIVEN the same work, the assessment is the same with locality switched
  off, with a site weight of zero, and at the same sites. A site weight of zero leaves slots that
  are zeros of some sign, which no sum can tell apart (`alike_features`, `dot_eq`). Nothing is asked
  of the curves.
-/
namespace Placement

open Double (Alike IsZero)

/-- Two contexts show the same work on the same machine, wherever both come from. -/
structure Context.SameWork (c c' : Context) : Prop where
  /-- The jobs differ in number, user, group, time of submission, site and system at most. -/
  job : c'.job = { c.job with
    id := c'.job.id
    user := c'.job.user
    group := c'.job.group
    submitted := c'.job.submitted
    site := c'.job.site
    system := c'.job.system }
  /-- The systems differ in name, site and interconnect at most. -/
  system : c'.system = { c.system with
    name := c'.system.name
    site := c'.system.site
    interconnect := c'.system.interconnect }
  status : c'.status = c.status
  now : c'.now = c.now

/-- Job and system stand at the sites they stood at. -/
structure Context.SameSites (c c' : Context) : Prop where
  job : c'.job.site = c.job.site
  system : c'.system.site = c.system.site

/-- The system of origin and the system at hand have the names they had. -/
structure Context.SameNames (c c' : Context) : Prop where
  job : c'.job.system = c.job.system
  system : c'.system.name = c.system.name

namespace Context.SameWork

variable {c c' : Context} (h : c.SameWork c')
include h

/-- The gate reads nothing of an origin. -/
theorem infeasibility?_eq (check : NodeCheck) :
    c'.infeasibility? check = c.infeasibility? check := by
  unfold infeasibility?
  rw [h.job, h.system, h.status]
  cases check <;> rfl

theorem expectedWait_eq : c'.expectedWait = c.expectedWait := by
  unfold expectedWait wait
  rw [h.status, h.now]

/-- The heuristic reads an origin in its site factor only. -/
theorem factors_eq (curves : Curves Float) (t : HeuristicTuning)
    (hsite : Heuristic.siteFactor t c'.job c'.system = Heuristic.siteFactor t c.job c.system) :
    Heuristic.factors curves t c' = Heuristic.factors curves t c := by
  unfold Heuristic.factors
  rw [hsite, h.expectedWait_eq, h.job, h.system, h.status]
  rfl

/-- The live term reads nothing of an origin. -/
theorem dynamic_eq (curves : Curves Float) (t : EmbeddingTuning) :
    Embedding.dynamic curves t c' = Embedding.dynamic curves t c := by
  unfold Embedding.dynamic Embedding.slowdown wait
  rw [h.job, h.system, h.status, h.now]
  rfl

end Context.SameWork

/-! ## The heuristic -/

namespace Heuristic

variable {c c' : Context}

theorem siteFactor_congr (t : HeuristicTuning) (hsites : c.SameSites c') (hnames : c.SameNames c') :
    siteFactor t c'.job c'.system = siteFactor t c.job c.system := by
  unfold siteFactor
  rw [hsites.job, hsites.system, hnames.job, hnames.system]

/-- Without affinity no place is better than another. -/
theorem siteFactor_eq_one {t : HeuristicTuning} (h : t.siteAffinity = false) (job : Job)
    (system : System) : siteFactor t job system = 1 := by
  unfold siteFactor
  rw [h]
  rfl

/-- The scorer sees no more of an origin than the site factor does. -/
theorem assess_congr (curves : Curves Float) (t : HeuristicTuning) (check : NodeCheck)
    (h : c.SameWork c')
    (hsite : siteFactor t c'.job c'.system = siteFactor t c.job c.system) :
    (scorer curves t check).assess c' = (scorer curves t check).assess c := by
  unfold scorer Scorer.gated
  dsimp only
  rw [h.infeasibility?_eq, h.factors_eq curves t hsite]

end Heuristic

/-! ## The embedding -/

namespace Embedding

/-- Two vectors are alike in every slot. -/
def AlikeSlots {n : ℕ} (a b : Vector Float n) : Prop := ∀ i (hi : i < n), Alike a[i] b[i]

theorem AlikeSlots.forall₂ {n : ℕ} {a b : Vector Float n} (h : AlikeSlots a b) :
    List.Forall₂ Alike a.toList b.toList := by
  refine List.forall₂_iff_get.mpr ⟨by simp, fun i hi _ => ?_⟩
  have hslot := h i (by simpa using hi)
  simpa using hslot

/-- Vectors that are alike have the same product with vectors that are alike. -/
theorem dot_eq {a a' b b' : Features Float} (ha : AlikeSlots a a') (hb : AlikeSlots b b') :
    dot a b = dot a' b' := by
  have hproducts : AlikeSlots (a.zipWith (· * ·) b) (a'.zipWith (· * ·) b') := by
    intro i hi
    rw [Vector.getElem_zipWith, Vector.getElem_zipWith]
    exact (ha i hi).mul (hb i hi)
  exact Double.sum_eq hproducts.forall₂ Double.not_isMinusZero_zero

/-- Vectors that are alike are alike when they are brought to length 1. -/
theorem AlikeSlots.normalize {a b : Features Float} (h : AlikeSlots a b) :
    AlikeSlots (normalize a) (normalize b) := by
  have hfinite : AlikeSlots (a.map fun x => if Scalar.isFinite x then x else 0)
      (b.map fun x => if Scalar.isFinite x then x else 0) := by
    intro i hi
    rw [Vector.getElem_map, Vector.getElem_map]
    show Alike (if a[i].isFinite then a[i] else 0) (if b[i].isFinite then b[i] else 0)
    rw [(h i hi).isFinite_eq]
    split
    · exact h i hi
    · exact .refl 0
  -- both lengths are one double, so both vectors are without direction or both are divided
  have hlength := congrArg Scalar.sqrt (dot_eq hfinite hfinite)
  intro i hi
  unfold Embedding.normalize norm
  dsimp only
  rw [hlength]
  generalize (Scalar.sqrt _ : Float) = length
  split_ifs
  · exact .refl _
  · have hslot (v : Features Float) : (v.map (· / length))[i] = v[i] / length :=
      Vector.getElem_map ..
    rw [hslot, hslot]
    exact (hfinite i hi).div length

/-- With a weight of zero every slot is zero, whatever the label. -/
theorem isZero_oneHot {n : ℕ} (known : Vector String n) (label : String) {weight : Float}
    (hw : IsZero weight) (i : ℕ) (hi : i < n + 1) : IsZero (oneHot known label weight)[i] := by
  rcases oneHot_eq_or known label weight i hi with h | h
  · rw [h]
    exact hw
  · rw [h]
    exact Double.isZero_zero

/-- Features with the same numbers and type are alike when sites are the same or weigh nothing. -/
theorem alike_features {t : EmbeddingTuning} {site site' : String}
    (h : site' = site ∨ IsZero t.siteWeight) (numeric : Vector Float 5) (type : ResourceType) :
    AlikeSlots (features t numeric type site') (features t numeric type site) := by
  rcases h with rfl | hw
  · exact fun _ _ => .refl _
  · intro i hi
    unfold features
    dsimp only
    rw [Vector.getElem_append, Vector.getElem_append]
    split
    · exact .refl _
    · exact .inr ⟨isZero_oneHot _ _ hw _ _, isZero_oneHot _ _ hw _ _⟩

variable {c c' : Context} (h : c.SameWork c')
include h

theorem alike_jobFeatures (curves : Curves Float) {t : EmbeddingTuning}
    (hsite : c'.job.site = c.job.site ∨ IsZero t.siteWeight) :
    AlikeSlots (jobFeatures curves t c'.job) (jobFeatures curves t c.job) := by
  unfold jobFeatures
  rw [h.job]
  exact alike_features hsite _ _

theorem alike_systemFeatures (curves : Curves Float) {t : EmbeddingTuning}
    (hsite : c'.system.site = c.system.site ∨ IsZero t.siteWeight) :
    AlikeSlots (systemFeatures curves t c'.system) (systemFeatures curves t c.system) := by
  unfold systemFeatures storageFeature
  rw [h.system]
  exact alike_features hsite _ _

/-- The similarity is that of the sites, and of nothing else about an origin. -/
theorem similarity_eq (curves : Curves Float) {t : EmbeddingTuning}
    (hplace : c.SameSites c' ∨ IsZero t.siteWeight) :
    similarity curves t c'.job c'.system = similarity curves t c.job c.system := by
  have hjob := alike_jobFeatures h curves (hplace.imp_left Context.SameSites.job)
  have hsystem := alike_systemFeatures h curves (hplace.imp_left Context.SameSites.system)
  unfold similarity ofJob ofSystem
  rw [dot_eq hjob.normalize hsystem.normalize]

/-- The scorer sees no more of an origin than the site slots do. -/
theorem assess_congr (curves : Curves Float) {t : EmbeddingTuning} (check : NodeCheck)
    (hplace : c.SameSites c' ∨ IsZero t.siteWeight) :
    (scorer curves t check).assess c' = (scorer curves t check).assess c := by
  unfold scorer Scorer.gated value
  dsimp only
  rw [h.infeasibility?_eq, similarity_eq h curves hplace, h.dynamic_eq curves t]

end Embedding

/-! ## Both scorers -/

/-- Origin and identity leak into an assessment, its value, reason and detail, through the affinity
terms only, whatever the tuning. Who submitted a job and when, and how a system is connected, count
for neither scorer; with affinity switched off sites and names do not count for the heuristic
scorer either; and for the embedding scorer names never count, nor do sites of weight zero. -/
theorem assess_ignores_origin (curves : Curves Float) (t : Tuning) (c c' : Context)
    (h : c.SameWork c') :
    (c.SameSites c' → c.SameNames c' → ∀ kind,
      (t.scorerOf curves kind).assess c' = (t.scorerOf curves kind).assess c) ∧
    (t.heuristic.siteAffinity = false →
      (t.scorerOf curves .heuristic).assess c' = (t.scorerOf curves .heuristic).assess c) ∧
    ((t.embedding.siteWeight == 0) = true →
      (t.scorerOf curves .embedding).assess c' = (t.scorerOf curves .embedding).assess c) ∧
    (c.SameSites c' →
      (t.scorerOf curves .embedding).assess c' = (t.scorerOf curves .embedding).assess c) := by
  have hembedding := Embedding.assess_congr h curves (t := t.embedding) t.gate.nodeCheck
  refine ⟨fun hsites hnames kind => ?_, fun haffinity => ?_, fun hweight => ?_, fun hsites => ?_⟩
  · cases kind with
    | heuristic =>
      exact Heuristic.assess_congr curves t.heuristic t.gate.nodeCheck h
        (Heuristic.siteFactor_congr t.heuristic hsites hnames)
    | embedding => exact hembedding (.inl hsites)
  · refine Heuristic.assess_congr curves t.heuristic t.gate.nodeCheck h ?_
    rw [Heuristic.siteFactor_eq_one haffinity, Heuristic.siteFactor_eq_one haffinity]
  · exact hembedding (.inr (Double.isZero_of_beq hweight))
  · exact hembedding (.inl hsites)

/-- A tuning without locality; its site weight is the negative zero. -/
def placeless : Tuning where
  heuristic := { siteAffinity := false }
  embedding := { siteWeight := -0.0 }

/-- A job on a machine of its own site. -/
def homely : Context where
  job := ⟨1, 1, 1, .hpc, 0, 60, 8, true, 64, 10, "NERSC", "Perlmutter"⟩
  system := ⟨"Perlmutter", "NERSC", .hpc, 16, 64, none, true, 1e12, none⟩
  status := ⟨12, 1e6, 5⟩
  now := 0
  jobValid := rfl
  systemValid := rfl
  statusValid := rfl
  clockValid := checkClock_zero

/-- The job of another user, later, over another interconnect. -/
def reissued : Context where
  job := { homely.job with id := 2, user := 7, group := 9, submitted := 3600 }
  system := { homely.system with interconnect := some "slingshot" }
  status := homely.status
  now := homely.now
  jobValid := rfl
  systemValid := rfl
  statusValid := rfl
  clockValid := homely.clockValid

/-- The same work, sent from a laboratory to a site that is not known. -/
def displaced : Context where
  job := { reissued.job with site := "ALCF", system := "Aurora" }
  system := { reissued.system with name := "b", site := "north" }
  status := homely.status
  now := homely.now
  jobValid := rfl
  systemValid := rfl
  statusValid := rfl
  clockValid := homely.clockValid

theorem assess_ignores_origin_homely :
    placeless.check = .ok () ∧
    (∀ kind, (placeless.scorerOf .steep kind).assess reissued
      = (placeless.scorerOf .steep kind).assess homely) ∧
    ∀ kind, (placeless.scorerOf .steep kind).assess displaced
      = (placeless.scorerOf .steep kind).assess homely := by
  obtain ⟨hboth, -⟩ :=
    assess_ignores_origin .steep placeless homely reissued ⟨rfl, rfl, rfl, rfl⟩
  obtain ⟨-, hheuristic, hembedding, -⟩ :=
    assess_ignores_origin .steep placeless homely displaced ⟨rfl, rfl, rfl, rfl⟩
  refine ⟨rfl, hboth ⟨rfl, rfl⟩ ⟨rfl, rfl⟩, fun kind => ?_⟩
  cases kind with
  | heuristic => exact hheuristic rfl
  | embedding => exact hembedding rfl

end Placement
