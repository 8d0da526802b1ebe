import Placement.Scoring.Embedding
import Placement.Scoring.Heuristic
/-
  The scorer that a tuning asks for.
-/
namespace Placement

/-- The scorer of a kind, under the rest of a tuning. -/
def Tuning.scorerOf (curves : Curves Float) (t : Tuning) : ScorerKind → Scorer
  | .heuristic => Heuristic.scorer curves t.heuristic t.gate.nodeCheck
  | .embedding => Embedding.scorer curves t.embedding t.gate.nodeCheck

/-- The scorer that is tuned. -/
def Tuning.chosenScorer (curves : Curves Float) (t : Tuning) : Scorer := t.scorerOf curves t.scorer

end Placement
