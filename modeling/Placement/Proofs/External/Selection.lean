import Placement.Command.Select
import Placement.Proofs.Auction.Clearing
import Placement.Proofs.External.FanOut
/-
  External selection. `pending`: the positions of the requests that are sent out, those with a
  context that passes the gate (`mem_pending`). `dueBid`: the bid that a position is due, given the
  outcome of its own run.

  * `recordAll_getElem?`: outcomes are recorded position by position, and a position that has none
    keeps what the gate left there.
  * `externalBids_eq`: each candidate ends with the bid it is due, given a course that brings the
    outcomes back in the order in which the requests went out (`Course.outcomes_eq`).
  * `external_selection_keeps_every_bid`: the sent requests, the bids and the answer, for every
    complete course in which each run comes to its assigned outcome, and for the select command
    itself. The first of the highest bids wins.
-/
namespace Placement

/-! ## Bids of a fallback -/

namespace Fallback

variable (f : Fallback) (c : Context)

/-- A gated bid is 0. -/
theorem value_of_gate? {own : Float} {b : Bid} (h : f.gate? c own = some b) : b.value = 0 := by
  unfold gate? at h
  obtain ⟨reason, -, rfl⟩ := Option.map_eq_some_iff.mp h
  rfl

/-- The time that is charged does not change the value. -/
theorem value_resolveResponse (outcome : Outcome) (elapsed elapsed' : Duration) (own : Float) :
    (f.resolveResponse c outcome elapsed own).value
      = (f.resolveResponse c outcome elapsed' own).value := by
  unfold resolveResponse
  cases f.gate? c own with
  | some b => rfl
  | none =>
    cases outcome with
    | ok r => rfl
    | error failure =>
      show (f.heuristic.bid c own).value = (f.heuristic.bid c own).value
      rfl

/-- A resolved bid is a bid already. -/
theorem sanitize_resolveResponse (outcome : Outcome) (elapsed : Duration) (own : Float) :
    sanitize (f.resolveResponse c outcome elapsed own).value
      = (f.resolveResponse c outcome elapsed own).value := by
  unfold resolveResponse
  cases hgate : f.gate? c own with
  | some b =>
    show sanitize b.value = b.value
    rw [f.value_of_gate? c hgate, Double.sanitize_zero]
  | none =>
    cases outcome with
    | ok r => exact Double.sanitize_sanitize r.bid
    | error failure =>
      show sanitize (f.heuristic.bid c own).value = (f.heuristic.bid c own).value
      rw [f.heuristic.value_bid, f.heuristic.sanitize_score]

end Fallback

namespace Command

open Auction FanOut

/-- The bid to record for a request when its run would come to an outcome: none without a valid
context, 0 at the gate, else what the outcome resolves to. -/
def dueBid (f : Fallback) (elapsed : Duration) (own : Float) (outcome : Outcome)
    (r : BidRequest) : Option Float :=
  match r.context with
  | .error _ => none
  | .ok context =>
    match f.gate? context own with
    | some _ => some 0
    | none => some (f.resolveResponse context outcome elapsed own).value

section

variable (f : Fallback) (elapsed : Duration) (own : Float)

theorem dueBid_elapsed (elapsed' : Duration) (outcome : Outcome) (r : BidRequest) :
    dueBid f elapsed own outcome r = dueBid f elapsed' own outcome r := by
  unfold dueBid
  rcases r.context with _ | context
  · rfl
  · simp only [f.value_resolveResponse context outcome elapsed elapsed']

/-- A due bid counts as it is. -/
theorem worth_dueBid (outcome : Outcome) (r : BidRequest) :
    worth (dueBid f elapsed own outcome r) = (dueBid f elapsed own outcome r).getD 0 := by
  unfold dueBid
  rcases r.context with _ | context
  · rfl
  · dsimp only
    rcases f.gate? context own with _ | b
    · exact f.sanitize_resolveResponse context outcome elapsed own
    · exact Double.sanitize_zero

/-! ## What is sent out -/

theorem isPending_iff (r : BidRequest) :
    isPending f own r = true ↔ ∃ context, r.context = .ok context ∧ f.gate? context own = none := by
  unfold isPending standing
  rcases r.context with _ | context
  · simp
  · dsimp only
    rcases hgate : f.gate? context own with _ | b
    · exact ⟨fun _ => ⟨context, rfl, hgate⟩, fun _ => rfl⟩
    · simp [hgate]

variable (requests : List BidRequest)

/-- Exactly the requests with a valid context that pass the gate are pending. -/
theorem mem_pending {i : Nat} :
    i ∈ pending f own requests ↔ ∃ r context,
      requests[i]? = some r ∧ r.context = .ok context ∧ f.gate? context own = none := by
  unfold pending
  rw [List.mem_filter, List.mem_range]
  constructor
  · rintro ⟨hlt, hp⟩
    rw [List.getElem?_eq_getElem hlt, Option.any_some, isPending_iff] at hp
    obtain ⟨context, hc, hgate⟩ := hp
    exact ⟨requests[i], context, List.getElem?_eq_getElem hlt, hc, hgate⟩
  · rintro ⟨r, context, hr, hc, hgate⟩
    refine ⟨(List.getElem?_eq_some_iff.mp hr).1, ?_⟩
    rw [hr, Option.any_some, isPending_iff]
    exact ⟨context, hc, hgate⟩

/-- Pending positions ascend, so none is pending twice. -/
theorem pending_ascending : (pending f own requests).Pairwise (· < ·) :=
  List.pairwise_lt_range.filter _

/-- The requests at the sent positions are offered, in the same order. -/
theorem map_offered {β : Type} (g : BidRequest → β) (absent : β) {positions : List Nat}
    (h : ∀ i ∈ positions, i < requests.length) :
    (offered requests positions).map g = positions.map fun i => (requests[i]?).elim absent g := by
  unfold offered
  induction positions with
  | nil => rfl
  | cons i rest ih =>
    have hlt : i < requests.length := h i List.mem_cons_self
    have hi : requests[i]? = some requests[i] := List.getElem?_eq_getElem hlt
    rw [List.filterMap_cons_some hi, List.map_cons, List.map_cons, hi,
      ih fun j hj => h j (List.mem_cons_of_mem _ hj)]
    rfl

theorem pending_lt {i : Nat} (h : i ∈ pending f own requests) : i < requests.length := by
  obtain ⟨r, -, hr, -⟩ := (mem_pending f own requests).mp h
  exact (List.getElem?_eq_some_iff.mp hr).1

theorem length_offered :
    (offered requests (pending f own requests)).length = (pending f own requests).length := by
  have h := map_offered requests some none fun i hi => pending_lt f own requests hi
  have hlen := congrArg List.length h
  rwa [List.length_map, List.length_map] at hlen

/-! ## What is recorded -/

/-- Before any outcome, a position that is not pending holds what is due to it. -/
theorem gatedBids_getElem? {i : Nat} {r : BidRequest} (hr : requests[i]? = some r)
    (hi : i ∉ pending f own requests) (outcome : Outcome) :
    (gatedBids f own requests)[i]? = some (dueBid f elapsed own outcome r) := by
  unfold gatedBids dueBid standing
  rw [List.getElem?_map, hr, Option.map_some]
  rcases hc : r.context with _ | context
  · rfl
  · dsimp only
    rcases hgate : f.gate? context own with _ | b
    · exact absurd ((mem_pending f own requests).mpr ⟨r, context, hr, hc, hgate⟩) hi
    · dsimp only
      rw [f.value_of_gate? context hgate]

/-- The outcome of a pending position is recorded as the bid due to it, in its place. -/
theorem record_pending {i : Nat} {r : BidRequest} (hr : requests[i]? = some r)
    (hi : i ∈ pending f own requests) (outcome : Outcome) (bids : List (Option Float)) :
    record f elapsed own requests bids (i, outcome)
      = .ok (bids.set i (dueBid f elapsed own outcome r)) := by
  obtain ⟨r', context, hr', hc, hgate⟩ := (mem_pending f own requests).mp hi
  rw [hr] at hr'
  cases hr'
  unfold record dueBid
  simp only [hr, hc, hgate]
  rfl

theorem lookup_eq_none_of_not_mem {entries : List (Nat × Outcome)} {i : Nat}
    (h : i ∉ entries.map Prod.fst) : entries.lookup i = none := by
  rw [List.lookup_eq_none_iff]
  intro entry hentry
  exact bne_iff_ne.mpr fun hi => h (hi ▸ List.mem_map_of_mem hentry)

/-- After outcomes at some pending positions, each at most once, these hold what is due to them
and the others what they held before. -/
theorem foldlM_record (entries : List (Nat × Outcome))
    (hp : ∀ entry ∈ entries, entry.1 ∈ pending f own requests)
    (hn : (entries.map Prod.fst).Nodup)
    (bids : List (Option Float)) (hlen : bids.length = requests.length) :
    ∃ done, entries.foldlM (record f elapsed own requests) bids = .ok done ∧
      done.length = requests.length ∧
      ∀ i r, requests[i]? = some r → done[i]? =
        match entries.lookup i with
        | some outcome => some (dueBid f elapsed own outcome r)
        | none => bids[i]? := by
  induction entries generalizing bids with
  | nil => exact ⟨bids, rfl, hlen, fun i r _ => rfl⟩
  | cons entry rest ih =>
    obtain ⟨k, outcome⟩ := entry
    rw [List.map_cons, List.nodup_cons] at hn
    have hk : k ∈ pending f own requests := hp _ List.mem_cons_self
    have hlt : k < requests.length := pending_lt f own requests hk
    have hrk : requests[k]? = some requests[k] := List.getElem?_eq_getElem hlt
    obtain ⟨done, hdone, hdlen, hget⟩ := ih (fun e he => hp e (List.mem_cons_of_mem _ he)) hn.2
      (bids.set k (dueBid f elapsed own outcome requests[k])) (by rw [List.length_set, hlen])
    refine ⟨done, ?_, hdlen, ?_⟩
    · rw [List.foldlM_cons, record_pending f elapsed own requests hrk hk]
      exact hdone
    · intro i r hr
      rw [hget i r hr, List.lookup_cons]
      by_cases hik : i = k
      · subst hik
        rw [hr] at hrk
        cases hrk
        rw [lookup_eq_none_of_not_mem hn.1, BEq.rfl, List.getElem?_set_self (hlen ▸ hlt)]
      · rw [beq_eq_false_iff_ne.mpr hik, List.getElem?_set_ne (Ne.symm hik)]

theorem map_fst_zip_sublist (positions : List Nat) (outcomes : List Outcome) :
    ((positions.zip outcomes).map Prod.fst).Sublist positions := by
  induction positions generalizing outcomes with
  | nil => exact List.Sublist.slnil
  | cons i rest ih =>
    cases outcomes with
    | nil => exact List.nil_sublist _
    | cons outcome others => exact (ih others).cons_cons i

/-- Whatever outcomes come back, each in its place: a position with an outcome holds what is due to
it, and every other one what the gate left there. -/
theorem recordAll_getElem? (outcomes : List Outcome) :
    ∃ done, recordAll f elapsed own requests outcomes = .ok done ∧
      done.length = requests.length ∧
      ∀ i r, requests[i]? = some r → done[i]? =
        match ((pending f own requests).zip outcomes).lookup i with
        | some outcome => some (dueBid f elapsed own outcome r)
        | none => (gatedBids f own requests)[i]? := by
  have hkeys : (((pending f own requests).zip outcomes).map Prod.fst).Sublist
      (pending f own requests) := map_fst_zip_sublist _ _
  refine foldlM_record f elapsed own requests _ ?_ ?_ _ (List.length_map _)
  · intro entry hentry
    exact hkeys.subset (List.mem_map_of_mem hentry)
  · exact ((pending_ascending f own requests).imp Nat.ne_of_lt).sublist hkeys

/-- Whatever comes back from the runs, a gated request ends with a bid of 0. -/
theorem externalBids_gated {i : Nat} {r : BidRequest} {context : Context} {b : Bid}
    (hr : requests[i]? = some r) (hc : r.context = .ok context)
    (hgate : f.gate? context own = some b) (fanOut : List BidRequest → Course) :
    ∃ bids, externalBids f own fanOut requests = .ok bids ∧ bids.length = requests.length ∧
      bids[i]? = some (some 0) := by
  have hnot : i ∉ pending f own requests := by
    intro hmem
    obtain ⟨r', context', hr', hc', hnone⟩ := (mem_pending f own requests).mp hmem
    rw [hr] at hr'
    cases hr'
    rw [hc] at hc'
    cases hc'
    rw [hgate] at hnone
    exact nomatch hnone
  let course := fanOut (offered requests (pending f own requests))
  let outcomes := course.outcomes (pending f own requests).length
  obtain ⟨bids, hbids, hlen, hget⟩ := recordAll_getElem? f course.elapsed own requests outcomes
  refine ⟨bids, hbids, hlen, ?_⟩
  -- no outcome belongs to the position, so it holds what the gate left there
  have hkeys := map_fst_zip_sublist (pending f own requests) outcomes
  rw [hget i r hr, lookup_eq_none_of_not_mem fun hmem => hnot (hkeys.subset hmem)]
  show (gatedBids f own requests)[i]? = _
  rw [gatedBids_getElem? f course.elapsed own requests hr hnot (.error (.aborted ""))]
  unfold dueBid
  rw [hc]
  simp only [hgate]

variable (assigned : Nat → Outcome)

/-- The bids that are due to all requests, each run coming to the outcome assigned to it. -/
def dueBids : List (Option Float) :=
  requests.mapIdx fun i r => dueBid f elapsed own (assigned i) r

theorem lookup_zip_map (positions : List Nat) (i : Nat) :
    (positions.zip (positions.map assigned)).lookup i
      = if i ∈ positions then some (assigned i) else none := by
  induction positions with
  | nil => rfl
  | cons k rest ih =>
    rw [List.map_cons, List.zip_cons_cons, List.lookup_cons, ih]
    by_cases hik : i = k
    · subst hik
      rw [BEq.rfl, if_pos List.mem_cons_self]
    · rw [beq_eq_false_iff_ne.mpr hik]
      simp [hik]

/-- All outcomes together leave every position with the bid due to it. -/
theorem recordAll_eq :
    recordAll f elapsed own requests ((pending f own requests).map assigned)
      = .ok (dueBids f elapsed own requests assigned) := by
  obtain ⟨done, hdone, hlen, hget⟩ := recordAll_getElem? f elapsed own requests
    ((pending f own requests).map assigned)
  rw [hdone]
  congr 1
  apply List.ext_getElem?
  intro i
  unfold dueBids
  rw [List.getElem?_mapIdx]
  cases hr : requests[i]? with
  | none =>
    rw [List.getElem?_eq_none_iff] at hr
    rw [Option.map_none, List.getElem?_eq_none_iff, hlen]
    exact hr
  | some r =>
    rw [hget i r hr, lookup_zip_map, Option.map_some]
    by_cases hi : i ∈ pending f own requests
    · rw [if_pos hi]
    · rw [if_neg hi]
      exact gatedBids_getElem? f elapsed own requests hr hi (assigned i)

@[simp] theorem length_dueBids :
    (dueBids f elapsed own requests assigned).length = requests.length := List.length_mapIdx

theorem dueBids_getElem? {i : Nat} {r : BidRequest} (hr : requests[i]? = some r) :
    (dueBids f elapsed own requests assigned)[i]? = some (dueBid f elapsed own (assigned i) r) := by
  unfold dueBids
  rw [List.getElem?_mapIdx, hr]
  rfl

theorem dueBids_elapsed (elapsed' : Duration) :
    dueBids f elapsed own requests assigned = dueBids f elapsed' own requests assigned := by
  unfold dueBids
  simp only [dueBid_elapsed f elapsed own elapsed']

/-- Due bids count as they are. -/
theorem map_worth_dueBids :
    (dueBids f elapsed own requests assigned).map worth
      = (dueBids f elapsed own requests assigned).map (·.getD 0) := by
  apply List.map_congr_left
  intro bid hbid
  obtain ⟨i, hi, rfl⟩ := List.mem_mapIdx.mp hbid
  exact worth_dueBid f elapsed own (assigned i) requests[i]

/-- The bids of all requests, when the runs come to what is assigned to them. -/
theorem externalBids_eq {fanOut : List BidRequest → Course}
    (h : (fanOut (offered requests (pending f own requests))).outcomes (pending f own requests).length
      = (pending f own requests).map assigned) :
    externalBids f own fanOut requests = .ok (dueBids f elapsed own requests assigned) := by
  unfold externalBids
  dsimp only
  rw [h, recordAll_eq, dueBids_elapsed f _ own requests assigned elapsed]

end

/-! ## The answer -/

section

variable (curves : Curves Float) (own : Float) (t : Tuning) (r : SelectionRequest)

/-- The winner among the bids that are due. -/
def dueAnswer (assigned : Nat → Outcome) : Option String :=
  winner? ((r.candidates.map Candidate.name).zip
    (dueBids (t.fallback curves) (.ofSeconds 0) own (bidRequests r) assigned))

theorem decides_dueAnswer (assigned : Nat → Outcome) :
    Decides (r.candidates.map Candidate.name)
      ((dueBids (t.fallback curves) (.ofSeconds 0) own (bidRequests r) assigned).map (·.getD 0))
      (dueAnswer curves own t r assigned) := by
  rw [← map_worth_dueBids]
  refine decides_zip ?_
  rw [length_dueBids, bidRequests, List.length_map, List.length_map]

variable {curves own t r}

/-- When the runs come to what is assigned to them, the winner is the one among the due bids. -/
theorem selectExternally_eq {fanOut : List BidRequest → Course} {assigned : Nat → Outcome}
    (h : (fanOut (offered (bidRequests r) (pending (t.fallback curves) own (bidRequests r)))).outcomes
      (pending (t.fallback curves) own (bidRequests r)).length
        = (pending (t.fallback curves) own (bidRequests r)).map assigned) :
    selectExternally curves own t fanOut r = .ok (dueAnswer curves own t r assigned) := by
  unfold selectExternally
  rw [externalBids_eq (t.fallback curves) (.ofSeconds 0) own (bidRequests r) assigned h]
  rfl

/-- With a bidder, an answer to a request that reads is the external choice. -/
theorem selectThrough_cons {fanOut : Bidder → List BidRequest → Course} {b : Bidder}
    {selected : Option String} (h : selectExternally curves own t (fanOut b) r = .ok selected)
    {input : String} (hinput : SelectionRequest.ofText input = .ok r) :
    selectThrough curves own t fanOut (b.program :: b.arguments) b.timeout input
      = .ok ⟨selected, roundSeconds own⟩ := by
  unfold selectThrough
  rw [hinput]
  simp only [Bidder.ofCommandLine?]
  rw [h]

/-- The outcome of a bidder for the request at a position. -/
def launched (launch : Launch) (b : Bidder) (requests : List BidRequest) (i : Nat) : Outcome :=
  (requests[i]?).elim (.error (.aborted "")) fun q => b.outcome (b.run launch q)

/-- The command that runs takes one of these courses. -/
theorem select_cons (launch : Launch) (b : Bidder) {assigned : Nat → Outcome}
    (hassigned : ∀ i ∈ pending (t.fallback curves) own (bidRequests r),
      assigned i = launched launch b (bidRequests r) i)
    {input : String} (hinput : SelectionRequest.ofText input = .ok r) :
    select ⟨curves, launch, own⟩ t (b.program :: b.arguments) b.timeout input
      = .ok ⟨dueAnswer curves own t r assigned, roundSeconds own⟩ := by
  have hlt : ∀ i ∈ pending (t.fallback curves) own (bidRequests r), i < (bidRequests r).length :=
    fun i hi => pending_lt _ _ _ hi
  have houtcomes := bidAll_eq launch b
    (offered (bidRequests r) (pending (t.fallback curves) own (bidRequests r)))
  rw [map_offered (bidRequests r) _ (.error (.aborted "")) hlt, bidAll, length_offered] at houtcomes
  exact selectThrough_cons
    (selectExternally_eq (houtcomes.trans (List.map_congr_left hassigned).symm)) hinput

end

/-- External selection loses, duplicates and misattributes no bid, in any order of completion.
The requests that are sent out, each once, are those with a valid context that pass the gate. Given
the outcome that each run would come to, there are bids and an answer such that every request has
the bid that is due to it, the answer is the first candidate of the highest bid above 0, and every
complete course of runs with these outcomes ends with these bids and this answer. The command that
runs ends with it as well, when these are the outcomes that its bidder comes to. -/
theorem external_selection_keeps_every_bid (curves : Curves Float) (own : Float) (t : Tuning)
    (r : SelectionRequest) (assigned : Nat → Outcome) :
    let f := t.fallback curves
    let requests := bidRequests r
    let sent := pending f own requests
    sent.Pairwise (· < ·) ∧
    (∀ i, i ∈ sent ↔ ∃ q context,
      requests[i]? = some q ∧ q.context = .ok context ∧ f.gate? context own = none) ∧
    (offered requests sent).map some = sent.map (requests[·]?) ∧
    ∃ (bids : List (Option Float)) (answer : Option String),
      bids.length = requests.length ∧
      (∀ i q elapsed, requests[i]? = some q →
        bids[i]? = some (dueBid f elapsed own (assigned i) q)) ∧
      Decides (r.candidates.map Candidate.name) (bids.map (·.getD 0)) answer ∧
      (∀ (b : Bidder) (fanOut : Bidder → List BidRequest → Course),
        (fanOut b (offered requests sent)).Complete sent.length →
        (fanOut b (offered requests sent)).Assigned (sent.map assigned) →
        externalBids f own (fanOut b) requests = .ok bids ∧
        selectExternally curves own t (fanOut b) r = .ok answer ∧
        ∀ input, SelectionRequest.ofText input = .ok r →
          selectThrough curves own t fanOut (b.program :: b.arguments) b.timeout input
            = .ok ⟨answer, roundSeconds own⟩) ∧
      ∀ (launch : Launch) (b : Bidder) (input : String),
        (∀ i ∈ sent, assigned i = launched launch b requests i) →
        SelectionRequest.ofText input = .ok r →
        select ⟨curves, launch, own⟩ t (b.program :: b.arguments) b.timeout input
          = .ok ⟨answer, roundSeconds own⟩ := by
  intro f requests sent
  refine ⟨pending_ascending f own requests, fun i => mem_pending f own requests, ?_, ?_⟩
  · rw [map_offered requests some none fun i hi => pending_lt f own requests hi]
    exact List.map_congr_left fun i _ => by cases requests[i]? <;> rfl
  · refine ⟨dueBids f (.ofSeconds 0) own requests assigned, dueAnswer curves own t r assigned,
      length_dueBids f _ own requests assigned, ?_, decides_dueAnswer curves own t r assigned,
      ?_, ?_⟩
    · intro i q elapsed hq
      rw [dueBids_getElem? f _ own requests assigned hq, dueBid_elapsed f _ own elapsed]
    · intro b fanOut hc ha
      have houtcomes := Course.outcomes_eq_map hc ha
      have hselect : selectExternally curves own t (fanOut b) r
          = .ok (dueAnswer curves own t r assigned) := selectExternally_eq houtcomes
      exact ⟨externalBids_eq f _ own requests assigned houtcomes, hselect,
        fun input hinput => selectThrough_cons hselect hinput⟩
    · intro launch b input hassigned hinput
      exact select_cons launch b hassigned hinput

end Command

end Placement
