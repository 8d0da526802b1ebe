import Placement.Proofs.Curves
import Placement.Proofs.Gate
/-
  Selection with an external bidder that is out. `Outage c`: every run of the course `c` fails.

  `outage_leaves_heuristic`: every request that was sent out is bid on by the heuristic behind the
  bidder, the others keep what the gate left there, and the selection is that of the heuristic
  alone, ties and all. GIVEN a course that is complete and in which every run fails, in whatever
  way; nothing is asked of the request, and the scorer that the tuning chooses has no part in it.

  One path gates, sends and records by position, the other ranks in one pass, so the argument goes
  position by position (`externalBids_of_outage`).
-/
namespace Placement.Command

open Auction FanOut

/-- An outcome without a bid. -/
def IsFailure (outcome : Outcome) : Prop := ∃ failure, outcome = .error failure

/-- Every run that finishes in a course fails. -/
def Outage (c : Course) : Prop :=
  ∀ position outcome, .finish position outcome ∈ c.events → IsFailure outcome

/-! ## What is due -/

section

variable (curves : Curves Float) (own : Float) (t : Tuning) (r : SelectionRequest)

/-- What is due to a candidate whose run fails, if there is one, is its rank by the heuristic. -/
theorem dueBid_of_failure (elapsed : Duration) {outcome : Outcome} (c : Candidate)
    (h : isPending (t.fallback curves) own (r.bidRequest c) = true → IsFailure outcome) :
    dueBid (t.fallback curves) elapsed own outcome (r.bidRequest c)
      = (rankOne (t.scorerOf curves .heuristic) r.job r.now c).bid? := by
  rw [isPending_iff] at h
  show _ = ((r.bidRequest c).context.map (t.scorerOf curves .heuristic).score).toOption
  unfold dueBid
  cases hc : (r.bidRequest c).context with
  | error rejection => rfl
  | ok context =>
    show _ = some ((t.scorerOf curves .heuristic).score context)
    dsimp only
    cases hgate : context.infeasibility? t.gate.nodeCheck with
    | some reason =>
      rw [Fallback.gate?_of_infeasible hgate, ← (t.scorerOf curves .heuristic).value_bid context own]
      exact congrArg (fun b => some b.value) (bid_of_infeasible hgate .heuristic own).symm
    | none =>
      have hpass : (t.fallback curves).gate? context own = none :=
        Fallback.gate?_of_passes hgate own
      obtain ⟨failure, rfl⟩ := h ⟨context, hc, hpass⟩
      unfold Fallback.resolveResponse
      rw [hpass, ← (t.scorerOf curves .heuristic).value_bid context own]
      rfl

/-- With failures at all pending positions, what is due to the candidates are their ranks. -/
theorem dueBids_of_failures (elapsed : Duration) {assigned : ℕ → Outcome}
    (h : ∀ i ∈ pending (t.fallback curves) own (bidRequests r), IsFailure (assigned i)) :
    dueBids (t.fallback curves) elapsed own (bidRequests r) assigned
      = (rank (t.scorerOf curves .heuristic) r).map Ranked.bid? := by
  apply List.ext_getElem?
  intro i
  unfold rank
  rw [List.map_map, List.getElem?_map]
  cases hi : r.candidates[i]? with
  | none =>
    rw [List.getElem?_eq_none_iff] at hi
    rw [Option.map_none, List.getElem?_eq_none_iff, length_dueBids, bidRequests, List.length_map]
    exact hi
  | some c =>
    have hq : (bidRequests r)[i]? = some (r.bidRequest c) := by
      unfold bidRequests
      rw [List.getElem?_map, hi, Option.map_some]
    rw [dueBids_getElem? _ _ _ _ _ hq, dueBid_of_failure]
    · rfl
    · intro hpending
      obtain ⟨context, hc, hgate⟩ := (isPending_iff _ _ _).mp hpending
      exact h i ((mem_pending _ _ _).mpr ⟨_, context, hq, hc, hgate⟩)

end

/-! ## What comes back -/

/-- Outcomes in a row are those of a function of their positions, if these differ. -/
theorem exists_assigned {positions : List ℕ} {outcomes : List Outcome} (hn : positions.Nodup)
    (hlen : outcomes.length = positions.length) :
    ∃ assigned : ℕ → Outcome, positions.map assigned = outcomes := by
  induction positions generalizing outcomes with
  | nil => exact ⟨fun _ => .error (.aborted ""), (List.length_eq_zero_iff.mp hlen).symm⟩
  | cons i rest ih =>
    rw [List.nodup_cons] at hn
    cases outcomes with
    | nil => exact nomatch hlen
    | cons outcome others =>
      obtain ⟨assigned, hassigned⟩ := ih hn.2 (Nat.succ.inj hlen)
      refine ⟨Function.update assigned i outcome, ?_⟩
      rw [List.map_cons, Function.update_self, ← hassigned]
      congr 1
      apply List.map_congr_left
      intro j hj
      exact Function.update_of_ne (fun (hji : j = i) => hn.1 (hji ▸ hj)) _ _

section

variable {curves : Curves Float} {own : Float} {t : Tuning} {r : SelectionRequest}

/-- An outage leaves the ranks of the heuristic. -/
theorem externalBids_of_outage {fanOut : List BidRequest → Course}
    (hc : (fanOut (offered (bidRequests r)
      (pending (t.fallback curves) own (bidRequests r)))).Complete
        (pending (t.fallback curves) own (bidRequests r)).length)
    (hout : Outage (fanOut (offered (bidRequests r)
      (pending (t.fallback curves) own (bidRequests r))))) :
    externalBids (t.fallback curves) own fanOut (bidRequests r)
      = .ok ((rank (t.scorerOf curves .heuristic) r).map Ranked.bid?) := by
  have hnodup : (pending (t.fallback curves) own (bidRequests r)).Nodup :=
    (pending_ascending _ _ _).imp Nat.ne_of_lt
  have hfail := Course.forall_outcomes hout (pending (t.fallback curves) own (bidRequests r)).length
  obtain ⟨assigned, hassigned⟩ := exists_assigned hnodup (Course.length_outcomes hc)
  rw [← hassigned] at hfail
  rw [externalBids_eq _ (.ofSeconds 0) _ _ assigned hassigned.symm, dueBids_of_failures]
  intro i hi
  exact hfail _ (List.mem_map_of_mem hi)

/-- So the winner is the one that the heuristic chooses. -/
theorem selectExternally_of_outage {fanOut : List BidRequest → Course}
    (h : externalBids (t.fallback curves) own fanOut (bidRequests r)
      = .ok ((rank (t.scorerOf curves .heuristic) r).map Ranked.bid?)) :
    selectExternally curves own t fanOut r
      = .ok (selectLocally curves { t with scorer := .heuristic } r) := by
  have hentries : (r.candidates.map Candidate.name).zip
      ((rank (t.scorerOf curves .heuristic) r).map Ranked.bid?)
        = (rank (t.scorerOf curves .heuristic) r).map fun ranked => (ranked.name, ranked.bid?) := by
    rw [← name_rank (t.scorerOf curves .heuristic) r, List.zip_map']
  unfold selectExternally
  rw [h]
  show Except.ok (winner? _) = _
  rw [hentries]
  rfl

end

/-- The runs of a bidder that fails on every request are an outage. -/
theorem outage_course {launch : Launch} {b : Bidder} {requests : List BidRequest}
    (h : ∀ q ∈ requests, IsFailure (b.outcome (b.run launch q))) :
    Outage (course launch b requests) := by
  intro position outcome hmem
  have hassigned := (course_complete launch b requests).2 _ hmem
  obtain ⟨q, hq, rfl⟩ := List.mem_map.mp (List.mem_of_getElem? hassigned)
  exact h q hq

/-- An external bidder that is out leaves selection to the heuristic, exactly. Under any tuning,
whichever scorer it chooses, and for any request: when all runs that were started fail, each in its
own way, the bids by position are those of the heuristic, and so is the choice among them. The
command that runs answers as it does without a bidder under the same tuning with the heuristic for
its scorer. -/
theorem outage_leaves_heuristic (curves : Curves Float) (own : Float) (t : Tuning)
    (r : SelectionRequest) :
    let sent := pending (t.fallback curves) own (bidRequests r)
    let asked := offered (bidRequests r) sent
    (∀ fanOut : List BidRequest → Course,
      (fanOut asked).Complete sent.length → Outage (fanOut asked) →
      externalBids (t.fallback curves) own fanOut (bidRequests r)
        = .ok ((rank (t.scorerOf curves .heuristic) r).map Ranked.bid?) ∧
      selectExternally curves own t fanOut r
        = .ok (selectLocally curves { t with scorer := .heuristic } r)) ∧
    ∀ (launch : Launch) (b : Bidder) (timeout : Duration) (input : String),
      SelectionRequest.ofText input = .ok r →
      (∀ q ∈ asked, IsFailure (b.outcome (b.run launch q))) →
      select ⟨curves, launch, own⟩ t (b.program :: b.arguments) b.timeout input
        = select ⟨curves, launch, own⟩ { t with scorer := .heuristic } [] timeout input := by
  intro sent asked
  have hselect : ∀ fanOut : List BidRequest → Course,
      (fanOut asked).Complete sent.length → Outage (fanOut asked) →
      selectExternally curves own t fanOut r
        = .ok (selectLocally curves { t with scorer := .heuristic } r) :=
    fun fanOut hc hout => selectExternally_of_outage (externalBids_of_outage hc hout)
  refine ⟨fun fanOut hc hout => ⟨externalBids_of_outage hc hout, hselect fanOut hc hout⟩, ?_⟩
  intro launch b timeout input hinput hfails
  have hc := (course_complete launch b asked).1
  rw [length_offered] at hc
  rw [select_nil ⟨curves, launch, own⟩ { t with scorer := .heuristic } timeout hinput]
  exact selectThrough_cons (hselect _ hc (outage_course hfails)) hinput

/-- Three runs that fail, each in its own way and the last one first. -/
def aborted : Course :=
  ⟨[.finish 2 (.error (.timeout (.ofSeconds 30))), .finish 0 (.error (.aborted "")), .take,
    .finish 1 (.error (.reported "busy")), .take, .take], .ofSeconds 30⟩

theorem outage_aborted : Outage aborted := by
  intro position outcome h
  simp only [aborted, List.mem_cons, Event.finish.injEq, reduceCtorEq, false_or, or_false,
    List.not_mem_nil] at h
  obtain ⟨-, rfl⟩ | ⟨-, rfl⟩ | ⟨-, rfl⟩ := h
  · exact ⟨_, rfl⟩
  · exact ⟨_, rfl⟩
  · exact ⟨_, rfl⟩

/-- A machine of four nodes. -/
def machine : System := ⟨"x", "north", .hpc, 4, 64, none, false, 1e12, none⟩

/-- A job with candidates of every sort: one that is too small, one out of range, one that is half
in use, and two that are bid on alike. -/
def contested : SelectionRequest where
  job := ⟨1, 1, 1, .hpc, 0, 60, 2, false, 0, 0, "north", "a"⟩
  candidates := [
    ⟨"small", { machine with nodes := 1 }, ⟨1, 0, 0⟩⟩,
    ⟨"void", { machine with nodes := 0 }, ⟨0, 0, 0⟩⟩,
    ⟨"busy", machine, ⟨2, 0, 0⟩⟩,
    ⟨"first", machine, ⟨4, 0, 0⟩⟩,
    ⟨"second", machine, ⟨4, 0, 0⟩⟩]
  now := 0

theorem outage_leaves_heuristic_contested :
    pending (Tuning.fallback .steep { scorer := .embedding }) 0 (bidRequests contested)
        = [2, 3, 4] ∧
      externalBids (Tuning.fallback .steep { scorer := .embedding }) 0 (fun _ => aborted)
        (bidRequests contested) = .ok [some 0, none, some 0.45, some 0.9, some 0.9] ∧
      selectExternally .steep 0 { scorer := .embedding } (fun _ => aborted) contested
        = .ok (some "first") := by
  have hsent : pending (Tuning.fallback .steep { scorer := .embedding }) 0 (bidRequests contested)
      = [2, 3, 4] := rfl
  have hranked : (rank (Tuning.scorerOf .steep { scorer := .embedding } .heuristic) contested).map
      (fun ranked => (ranked.name, ranked.bid?)) = [("small", some 0), ("void", none),
        ("busy", some 0.45), ("first", some 0.9), ("second", some 0.9)] := by decide +kernel
  have hranks : (rank (Tuning.scorerOf .steep { scorer := .embedding } .heuristic) contested).map
      Ranked.bid? = [some 0, none, some 0.45, some 0.9, some 0.9] := by
    have hbids := congrArg (List.map Prod.snd) hranked
    rwa [List.map_map] at hbids
  have hwinner : selectLocally .steep { scorer := .heuristic } contested = some "first" :=
    (congrArg winner? hranked).trans rfl
  have hcomplete : aborted.Complete (pending (Tuning.fallback .steep { scorer := .embedding }) 0
      (bidRequests contested)).length := by
    rw [hsent]
    exact ⟨_, rfl, rfl⟩
  obtain ⟨hbids, hchoice⟩ := (outage_leaves_heuristic .steep 0 { scorer := .embedding }
    contested).1 (fun _ => aborted) hcomplete outage_aborted
  rw [hranks] at hbids
  rw [hwinner] at hchoice
  exact ⟨hsent, hbids, hchoice⟩

end Placement.Command
