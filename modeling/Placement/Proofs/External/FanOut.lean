import Placement.External.FanOut
/-
  Fan-out in any order of completion. A gathering is `Faithful` to a row of outcomes when each run
  that has finished came to its own outcome and the outcomes taken are the first ones of the row.

  * `Faithful.after?`: every event keeps that, given that a run finishes with the outcome assigned
    to it; `Faithful.afterAll?` follows by induction on the events.
  * `Course.outcomes_eq`: a course that takes all outcomes takes exactly the row, in its order.
  * `course_complete`: the course that a launch takes is one of these, so `bidAll_eq`.
-/
namespace Placement.FanOut

/-! ## Courses -/

/-- The events are possible one after another, and all outcomes are taken in the end. -/
def Course.Complete (c : Course) (count : Nat) : Prop :=
  ∃ g, (Gathering.start count).afterAll? c.events = some g ∧ g.taken.length = count

/-- A run that finishes comes to the outcome that a row assigns to its position. -/
def Event.Assigned (outcomes : List Outcome) : Event → Prop
  | .finish position outcome => outcomes[position]? = some outcome
  | .take => True

/-- Every run that finishes in a course comes to the outcome assigned to it. -/
def Course.Assigned (c : Course) (outcomes : List Outcome) : Prop :=
  ∀ event ∈ c.events, event.Assigned outcomes

namespace Gathering

/-- One slot a run; a slot is empty or holds the outcome of its run; and the outcomes taken are the
first of the row. -/
structure Faithful (outcomes : List Outcome) (g : Gathering) : Prop where
  length_runs : g.runs.length = outcomes.length
  finished : ∀ (i : Nat) (outcome : Outcome),
    g.runs[i]? = some (some outcome) → outcomes[i]? = some outcome
  taken : g.taken <+: outcomes

variable {outcomes : List Outcome} {g next : Gathering}

theorem faithful_start (outcomes : List Outcome) : Faithful outcomes (start outcomes.length) where
  length_runs := List.length_replicate
  finished i outcome h := by
    have hm := List.mem_of_getElem? h
    simp [start] at hm
  taken := List.nil_prefix

/-- What a finish does: the slot was empty and is filled, nothing else changes. -/
theorem after?_finish {position : Nat} {outcome : Outcome}
    (h : g.after? (.finish position outcome) = some next) :
    g.runs[position]? = some none ∧
      next = { g with runs := g.runs.set position (some outcome) } := by
  simp only [after?] at h
  split at h
  · rename_i hslot
    exact ⟨hslot, (Option.some.inj h).symm⟩
  · exact nomatch h

/-- What a take does: the next run has finished and its outcome is appended. -/
theorem after?_take (h : g.after? .take = some next) :
    ∃ outcome, g.runs[g.taken.length]? = some (some outcome) ∧
      next = { g with taken := g.taken ++ [outcome] } := by
  simp only [after?] at h
  split at h
  · rename_i outcome hslot
    exact ⟨outcome, hslot, (Option.some.inj h).symm⟩
  · exact nomatch h

/-- One event keeps a gathering faithful. -/
theorem Faithful.after? {event : Event} (hg : Faithful outcomes g)
    (hevent : event.Assigned outcomes) (h : g.after? event = some next) :
    Faithful outcomes next := by
  cases event with
  | finish position outcome =>
    obtain ⟨hslot, rfl⟩ := after?_finish h
    refine ⟨by rw [List.length_set, hg.length_runs], ?_, hg.taken⟩
    intro i found hi
    rw [List.getElem?_set] at hi
    split at hi
    · rename_i hpos
      subst hpos
      split at hi
      · cases hi
        exact hevent
      · exact nomatch hi
    · exact hg.finished i found hi
  | take =>
    obtain ⟨outcome, hslot, rfl⟩ := after?_take h
    refine ⟨hg.length_runs, hg.finished, ?_⟩
    have ho : outcomes[g.taken.length]? = some outcome := hg.finished _ _ hslot
    obtain ⟨rest, hrest⟩ := hg.taken
    refine ⟨rest.tail, ?_⟩
    rw [← hrest, List.getElem?_append_right (Nat.le_refl _), Nat.sub_self] at ho
    cases rest with
    | nil => exact nomatch ho
    | cons first rest =>
      cases ho
      rw [List.append_assoc]
      exact hrest

/-- What every event of a row keeps, the whole row keeps. -/
theorem afterAll?_keeps {keeps : Gathering → Prop} {events : List Event}
    (hstep : ∀ event ∈ events, ∀ g next, keeps g → g.after? event = some next → keeps next)
    (hg : keeps g) (h : g.afterAll? events = some next) : keeps next := by
  induction events generalizing g with
  | nil =>
    cases h
    exact hg
  | cons event rest ih =>
    unfold Gathering.afterAll? at h
    obtain ⟨mid, hmid, hrest⟩ := Option.bind_eq_some_iff.mp h
    exact ih (fun e he => hstep e (List.mem_cons_of_mem _ he))
      (hstep event List.mem_cons_self g mid hg hmid) hrest

/-- Any row of events keeps a gathering faithful. -/
theorem Faithful.afterAll? {events : List Event} (hg : Faithful outcomes g)
    (hevents : ∀ event ∈ events, event.Assigned outcomes)
    (h : g.afterAll? events = some next) : Faithful outcomes next :=
  afterAll?_keeps (fun event hevent _ _ hg h => hg.after? (hevents event hevent) h) hg h

/-- All outcomes so far have a property, taken or not. -/
structure All (p : Outcome → Prop) (g : Gathering) : Prop where
  finished : ∀ (i : Nat) (outcome : Outcome), g.runs[i]? = some (some outcome) → p outcome
  taken : ∀ outcome ∈ g.taken, p outcome

theorem all_start (p : Outcome → Prop) (count : Nat) : All p (start count) where
  finished i outcome h := by
    have hm := List.mem_of_getElem? h
    simp [start] at hm
  taken _ h := nomatch h

/-- One event keeps a property of all outcomes, if the run that finishes has it. -/
theorem All.after? {p : Outcome → Prop} {event : Event} (hg : All p g)
    (hevent : ∀ position outcome, event = .finish position outcome → p outcome)
    (h : g.after? event = some next) : All p next := by
  cases event with
  | finish position outcome =>
    obtain ⟨-, rfl⟩ := after?_finish h
    refine ⟨fun i found hi => ?_, hg.taken⟩
    rw [List.getElem?_set] at hi
    split at hi
    · split at hi
      · cases hi
        exact hevent position outcome rfl
      · exact nomatch hi
    · exact hg.finished i found hi
  | take =>
    obtain ⟨outcome, hslot, rfl⟩ := after?_take h
    refine ⟨hg.finished, fun found hfound => ?_⟩
    rcases List.mem_append.mp hfound with hfound | hfound
    · exact hg.taken found hfound
    · cases List.mem_singleton.mp hfound
      exact hg.finished _ _ hslot

theorem afterAll?_append (g : Gathering) (before after : List Event) :
    g.afterAll? (before ++ after) = (g.afterAll? before).bind (·.afterAll? after) := by
  induction before generalizing g with
  | nil => rfl
  | cons event rest ih =>
    show (g.after? event).bind (·.afterAll? (rest ++ after))
      = ((g.after? event).bind (·.afterAll? rest)).bind (·.afterAll? after)
    rw [Option.bind_assoc]
    exact Option.bind_congr fun mid _ => ih mid

end Gathering

/-- A complete course takes the outcome of each run, in the order of the requests. -/
theorem Course.outcomes_eq {c : Course} {outcomes : List Outcome}
    (hc : c.Complete outcomes.length) (ha : c.Assigned outcomes) :
    c.outcomes outcomes.length = outcomes := by
  obtain ⟨g, hg, hlen⟩ := hc
  have hf := (Gathering.faithful_start outcomes).afterAll? ha hg
  unfold Course.outcomes
  rw [hg]
  exact hf.taken.eq_of_length hlen

/-- A complete course of runs at some positions takes what is assigned to each of them. -/
theorem Course.outcomes_eq_map {c : Course} {positions : List Nat} {assigned : Nat → Outcome}
    (hc : c.Complete positions.length) (ha : c.Assigned (positions.map assigned)) :
    c.outcomes positions.length = positions.map assigned := by
  have hlen : (positions.map assigned).length = positions.length := List.length_map _
  rw [← hlen]
  exact Course.outcomes_eq (hlen ▸ hc) ha

theorem Course.length_outcomes {c : Course} {count : Nat} (hc : c.Complete count) :
    (c.outcomes count).length = count := by
  obtain ⟨g, hg, hlen⟩ := hc
  unfold Course.outcomes
  rw [hg]
  exact hlen

/-- What all runs that finish in a course come to, all outcomes are. -/
theorem Course.forall_outcomes {p : Outcome → Prop} {c : Course}
    (h : ∀ position outcome, .finish position outcome ∈ c.events → p outcome) (count : Nat) :
    ∀ outcome ∈ c.outcomes count, p outcome := by
  unfold Course.outcomes
  cases hg : (Gathering.start count).afterAll? c.events with
  | none => exact fun _ hmem => nomatch hmem
  | some g =>
    have hall : Gathering.All p g := Gathering.afterAll?_keeps
      (fun event hevent _ _ hg => hg.after? fun position outcome heq =>
        h position outcome (heq ▸ hevent)) (Gathering.all_start p count) hg
    exact hall.taken

/-! ## Any order of completion is a course -/

namespace Gathering

variable {g : Gathering}

/-- Runs that have not finished may finish one after another; the other slots stay. -/
theorem afterAll?_finish {finished : List Finished} (g : Gathering)
    (hempty : ∀ run ∈ finished, g.runs[run.1]? = some none)
    (hnodup : (finished.map Prod.fst).Nodup) :
    ∃ next, g.afterAll? (finished.map fun run => .finish run.1 run.2) = some next ∧
      next.taken = g.taken ∧ next.runs.length = g.runs.length ∧
      ∀ run ∈ finished, next.runs[run.1]? = some (some run.2) := by
  suffices h : ∃ next, g.afterAll? (finished.map fun run => .finish run.1 run.2) = some next ∧
      next.taken = g.taken ∧ next.runs.length = g.runs.length ∧
      (∀ run ∈ finished, next.runs[run.1]? = some (some run.2)) ∧
      ∀ i, i ∉ finished.map Prod.fst → next.runs[i]? = g.runs[i]? by
    obtain ⟨next, h1, h2, h3, h4, -⟩ := h
    exact ⟨next, h1, h2, h3, h4⟩
  induction finished generalizing g with
  | nil => exact ⟨g, rfl, rfl, rfl, nofun, fun _ _ => rfl⟩
  | cons run rest ih =>
    rw [List.map_cons, List.nodup_cons] at hnodup
    obtain ⟨hfresh, hnodup⟩ := hnodup
    let mid : Gathering := { g with runs := g.runs.set run.1 (some run.2) }
    have hslot := hempty run List.mem_cons_self
    have hlt : run.1 < g.runs.length := (List.getElem?_eq_some_iff.mp hslot).1
    have hmid : g.after? (.finish run.1 run.2) = some mid := by
      simp only [Gathering.after?, hslot]
      rfl
    have hmidEmpty : ∀ other ∈ rest, mid.runs[other.1]? = some none := by
      intro other hother
      have hne : run.1 ≠ other.1 := fun h => hfresh (h ▸ List.mem_map_of_mem hother)
      rw [List.getElem?_set_ne hne]
      exact hempty other (List.mem_cons_of_mem _ hother)
    obtain ⟨next, hnext, htaken, hlen, hfilled, hother⟩ := ih mid hmidEmpty hnodup
    refine ⟨next, ?_, htaken, by rw [hlen, List.length_set], ?_, ?_⟩
    · show (g.after? (.finish run.1 run.2)).bind _ = _
      rw [hmid]
      exact hnext
    · intro other hmem
      rcases List.mem_cons.mp hmem with rfl | hmem
      · rw [hother other.1 hfresh]
        exact List.getElem?_set_self hlt
      · exact hfilled other hmem
    · intro i hi
      rw [List.map_cons, List.mem_cons, not_or] at hi
      rw [hother i hi.2]
      exact List.getElem?_set_ne (Ne.symm hi.1)

/-- Once all runs have finished, outcomes may be taken until none is left. -/
theorem afterAll?_take {g : Gathering} {count : Nat}
    (hfilled : ∀ i < g.runs.length, ∃ outcome, g.runs[i]? = some (some outcome))
    (hcount : g.taken.length + count ≤ g.runs.length) :
    ∃ next, g.afterAll? (List.replicate count .take) = some next ∧
      next.taken.length = g.taken.length + count := by
  induction count generalizing g with
  | zero => exact ⟨g, rfl, rfl⟩
  | succ count ih =>
    obtain ⟨outcome, hslot⟩ := hfilled g.taken.length (by omega)
    let mid : Gathering := { g with taken := g.taken ++ [outcome] }
    have hmid : g.after? .take = some mid := by
      simp only [Gathering.after?, hslot]
      rfl
    have hlen : mid.taken.length = g.taken.length + 1 := List.length_append
    obtain ⟨next, hnext, hnextLen⟩ := ih (g := mid) hfilled (by
      rw [hlen]
      show g.taken.length + 1 + count ≤ g.runs.length
      omega)
    refine ⟨next, ?_, by rw [hnextLen, hlen]; omega⟩
    rw [List.replicate_succ]
    show (g.after? .take).bind _ = _
    rw [hmid]
    exact hnext

end Gathering

/-- The runs of a row of outcomes, each with its position. -/
def positioned (outcomes : List Outcome) : List Finished :=
  outcomes.zipIdx.map fun run => (run.2, run.1)

theorem mem_positioned {outcomes : List Outcome} {run : Finished} :
    run ∈ positioned outcomes ↔ outcomes[run.1]? = some run.2 := by
  unfold positioned
  rw [List.mem_map]
  constructor
  · rintro ⟨⟨outcome, i⟩, hmem, rfl⟩
    exact List.mem_zipIdx_iff_getElem?.mp hmem
  · intro h
    exact ⟨(run.2, run.1), List.mem_zipIdx_iff_getElem?.mpr h, rfl⟩

theorem map_fst_positioned (outcomes : List Outcome) :
    (positioned outcomes).map Prod.fst = List.range outcomes.length := by
  unfold positioned
  rw [List.map_map]
  show outcomes.zipIdx.map Prod.snd = _
  rw [List.zipIdx_map_snd, List.range_eq_range']

/-- Whatever the order in which the runs finish, the course that lets them finish and then takes
the outcomes is complete. -/
theorem complete_of_perm {outcomes : List Outcome} {finished : List Finished}
    (h : finished.Perm (positioned outcomes)) (elapsed : Duration) :
    let c : Course := ⟨finished.map (fun run => .finish run.1 run.2)
      ++ List.replicate outcomes.length .take, elapsed⟩
    c.Complete outcomes.length ∧ c.Assigned outcomes := by
  intro c
  have hmem : ∀ run, run ∈ finished ↔ outcomes[run.1]? = some run.2 := fun run => by
    rw [h.mem_iff, mem_positioned]
  constructor
  · have hempty : ∀ run ∈ finished,
        (Gathering.start outcomes.length).runs[run.1]? = some none := by
      intro run hrun
      obtain ⟨hlt, -⟩ := List.getElem?_eq_some_iff.mp ((hmem run).mp hrun)
      simp [Gathering.start, hlt]
    have hnodup : (finished.map Prod.fst).Nodup := by
      rw [(h.map Prod.fst).nodup_iff, map_fst_positioned]
      exact List.nodup_range
    obtain ⟨mid, hmid, htaken, hlen, hfilled⟩ := Gathering.afterAll?_finish _ hempty hnodup
    have hlen' : mid.runs.length = outcomes.length := hlen.trans List.length_replicate
    have htaken' : mid.taken.length = 0 := by rw [htaken]; rfl
    have hall : ∀ i < mid.runs.length, ∃ outcome, mid.runs[i]? = some (some outcome) := by
      intro i hi
      rw [hlen'] at hi
      exact ⟨_, hfilled (i, outcomes[i]) ((hmem _).mpr (List.getElem?_eq_getElem hi))⟩
    obtain ⟨g, hg, hgl⟩ := Gathering.afterAll?_take hall
      (show mid.taken.length + outcomes.length ≤ mid.runs.length by omega)
    refine ⟨g, ?_, by omega⟩
    rw [Gathering.afterAll?_append, hmid]
    exact hg
  · intro event hevent
    rcases List.mem_append.mp hevent with hevent | hevent
    · obtain ⟨run, hrun, rfl⟩ := List.mem_map.mp hevent
      exact (hmem run).mp hrun
    · rw [List.eq_of_mem_replicate hevent]
      trivial

/-! ## The course of a launch -/

theorem place_perm (run : Nat × Duration × Outcome)
    (placed : List (Nat × Duration × Outcome)) : (place run placed).Perm (run :: placed) := by
  induction placed with
  | nil => exact .refl _
  | cons first rest ih =>
    unfold place
    split
    · exact .refl _
    · exact (ih.cons first).trans (.swap run first rest)

theorem foldl_place_perm (runs placed : List (Nat × Duration × Outcome)) :
    (runs.foldl (fun placed run => place run placed) placed).Perm (runs ++ placed) := by
  induction runs generalizing placed with
  | nil => exact .refl _
  | cons run rest ih =>
    exact (ih _).trans (((place_perm run placed).append_left rest).trans List.perm_middle)

/-- Ordered by the time they take, the runs of a launch are its runs. -/
theorem finishing_perm (launch : Launch) (b : Bidder) (requests : List BidRequest) :
    (finishing launch b requests).Perm
      (positioned (requests.map fun r => b.outcome (b.run launch r))) := by
  unfold finishing
  refine ((foldl_place_perm _ []).map _).trans (.of_eq ?_)
  unfold positioned
  rw [List.append_nil, List.map_map, List.zipIdx_map, List.zipIdx_map, List.map_map, List.map_map]
  rfl

/-- The course of a launch is complete and lets each run come to the outcome of its request. -/
theorem course_complete (launch : Launch) (b : Bidder) (requests : List BidRequest) :
    (course launch b requests).Complete requests.length ∧
      (course launch b requests).Assigned (requests.map fun r => b.outcome (b.run launch r)) := by
  have h := complete_of_perm (finishing_perm launch b requests) (elapsed launch b requests)
  rw [List.length_map] at h
  exact h

/-- The outcomes of a bidder are those of its runs, in the order of the requests. -/
theorem bidAll_eq (launch : Launch) (b : Bidder) (requests : List BidRequest) :
    bidAll launch b requests = requests.map fun r => b.outcome (b.run launch r) := by
  obtain ⟨hc, ha⟩ := course_complete launch b requests
  have hlen : (requests.map fun r => b.outcome (b.run launch r)).length = requests.length :=
    List.length_map _
  have h := Course.outcomes_eq (hlen ▸ hc) ha
  rw [hlen] at h
  exact h

end Placement.FanOut
