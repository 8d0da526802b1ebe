import Placement.External.Exchange
/-
  When an exchange with a bidder can come to a stop. The parent takes nothing that the child has
  written before it has written the whole request. So both wait for good when the child is about to
  write into a full pipe while more of the request is left than the child's input holds:

  * `stuck_iff`: these (`IsBlocked`) are the only stuck states before the child's exit, among the
    states that an exchange reaches (`OnItsWay`).
  * `exists_stuck`: a plan with such a point runs into one of them.
  * `afterAll?_length`: every run is finite.
  * `never_stuck_iff`: no state before the exit is stuck exactly when every octet `FindsRoom`, GIVEN
    a child that reads the whole request (`ReadsAll`).

  `findsRoom_of_fits`, `findsRoom_of_reads_first` and `findsRoom_of_writes_le` are three plans that
  find room: a request within the capacity of the child's input, a child that reads before it
  writes, and one that writes within the capacities.
-/
namespace Placement

/-- How many octets the pipe of a stream holds. -/
def Capacity.of (c : Capacity) : Stream → Nat
  | .input => c.input
  | .output => c.output
  | .errors => c.errors

theorem Capacity.of_pos (c : Capacity) (s : Stream) : 0 < c.of s := by
  cases s with
  | input => exact c.input_pos
  | output => exact c.output_pos
  | errors => exact c.errors_pos

namespace Exchange

/-- How many octets are within the pipe of a stream. -/
def held (e : Exchange) : Stream → Nat
  | .input => e.input
  | .output => e.output
  | .errors => e.errors

/-- Every octet that the child writes finds room. Either the pipe has room for it though nothing
is taken out, or what is left of the request by then fits into the child's input, so that the parent
comes to take what is written. -/
def FindsRoom (capacity : Capacity) (request : Nat) (plan : List Stream) : Prop :=
  ∀ (done : List Stream) (s : Stream) (rest : List Stream), plan = done ++ s :: rest →
    s ≠ .input → done.count s < capacity.of s ∨ request ≤ done.count .input + capacity.input

/-! ## What a move does -/

section Moves

variable {e next : Exchange}

theorem after?_send (h : e.after? .send = some next) :
    (0 < e.unsent ∧ e.input < e.capacity.input) ∧
      next = { e with unsent := e.unsent - 1, input := e.input + 1 } := by
  simp only [after?] at h
  split at h
  · exact ⟨‹_›, (Option.some.inj h).symm⟩
  · cases h

theorem after?_close (h : e.after? .close = some next) :
    (e.unsent = 0 ∧ e.isClosed = false) ∧ next = { e with isClosed := true } := by
  simp only [after?] at h
  split at h
  · exact ⟨‹_›, (Option.some.inj h).symm⟩
  · cases h

/-- The parent takes an octet out of one of the two pipes, and only once it has closed its own. -/
theorem after?_drain {s : Stream} (h : e.after? (.drain s) = some next) :
    e.isClosed = true ∧
      (0 < e.output ∧ next = { e with output := e.output - 1 } ∨
        0 < e.errors ∧ next = { e with errors := e.errors - 1 }) := by
  cases s with
  | input => cases h
  | output =>
    simp only [after?] at h
    split at h
    · rename_i hguard
      exact ⟨hguard.1, .inl ⟨hguard.2, (Option.some.inj h).symm⟩⟩
    · cases h
  | errors =>
    simp only [after?] at h
    split at h
    · rename_i hguard
      exact ⟨hguard.1, .inr ⟨hguard.2, (Option.some.inj h).symm⟩⟩
    · cases h

/-- The exchange after the child has read or written an octet of a stream. -/
def passed (e : Exchange) (s : Stream) (rest : List Stream) : Exchange :=
  match s with
  | .input => { e with input := e.input - 1, plan := rest }
  | .output => { e with output := e.output + 1, plan := rest }
  | .errors => { e with errors := e.errors + 1, plan := rest }

@[simp] theorem passed_plan (s : Stream) (rest : List Stream) : (e.passed s rest).plan = rest := by
  cases s <;> rfl

@[simp] theorem passed_hasExited (s : Stream) (rest : List Stream) :
    (e.passed s rest).hasExited = e.hasExited := by
  cases s <;> rfl

theorem held_passed (s : Stream) (rest : List Stream) {t : Stream} (ht : t ≠ .input) :
    (e.passed s rest).held t = e.held t + if s = t then 1 else 0 := by
  cases t with
  | input => exact absurd rfl ht
  | output => cases s <;> rfl
  | errors => cases s <;> rfl

/-- Whether the child can read or write an octet of a stream. -/
def Ready (e : Exchange) (s : Stream) : Prop :=
  if s = .input then 0 < e.input else e.held s < e.capacity.of s

theorem after?_proceed_of_ready {s : Stream} {rest : List Stream} (hlive : e.hasExited = false)
    (hplan : e.plan = s :: rest) (hready : e.Ready s) :
    e.after? .proceed = some (e.passed s rest) := by
  have hguard : e.after? .proceed = e.proceed? := by
    simp only [after?, hlive]
    rfl
  rw [hguard]
  unfold proceed?
  rw [hplan]
  cases s with
  | input => exact if_pos hready
  | output => exact if_pos hready
  | errors => exact if_pos hready

theorem after?_proceed (h : e.after? .proceed = some next) :
    e.hasExited = false ∧ ∃ s rest, e.plan = s :: rest ∧ e.Ready s ∧ next = e.passed s rest := by
  simp only [after?] at h
  split at h
  · cases h
  · rename_i hlive
    refine ⟨Bool.eq_false_iff.mpr hlive, ?_⟩
    unfold proceed? at h
    split at h
    · cases h
    all_goals
      rename_i rest hplan
      split at h
      · rename_i hroom
        exact ⟨_, rest, hplan, hroom, (Option.some.inj h).symm⟩
      · cases h

theorem after?_exit (h : e.after? .exit = some next) :
    (e.plan = [] ∧ e.isClosed = true ∧ e.input = 0 ∧ e.hasExited = false) ∧
      next = { e with hasExited := true } := by
  simp only [after?] at h
  split at h
  · exact ⟨‹_›, (Option.some.inj h).symm⟩
  · cases h

theorem afterAll?_append (e : Exchange) (before after : List Move) :
    e.afterAll? (before ++ after) = (e.afterAll? before).bind (·.afterAll? after) := by
  induction before generalizing e with
  | nil => rfl
  | cons move rest ih =>
    show (e.after? move).bind (·.afterAll? (rest ++ after))
      = ((e.after? move).bind (·.afterAll? rest)).bind (·.afterAll? after)
    rw [Option.bind_assoc]
    exact Option.bind_congr fun mid _ => ih mid

end Moves

/-! ## Runs are finite -/

/-- A bound on the moves that are left. An octet of the plan counts twice: it is written by the
child and then taken by the parent. -/
def remaining (e : Exchange) : Nat :=
  e.unsent + 2 * e.plan.length + e.output + e.errors + (!e.isClosed).toNat + (!e.hasExited).toNat

theorem remaining_lt {e next : Exchange} {move : Move} (h : e.after? move = some next) :
    next.remaining < e.remaining := by
  cases move with
  | send =>
    obtain ⟨⟨hunsent, -⟩, rfl⟩ := after?_send h
    simp only [remaining]
    omega
  | close =>
    obtain ⟨⟨-, hopen⟩, rfl⟩ := after?_close h
    simp only [remaining, hopen]
    simp
  | drain s =>
    obtain ⟨-, ⟨hpos, rfl⟩ | ⟨hpos, rfl⟩⟩ := after?_drain h
    all_goals
      simp only [remaining]
      omega
  | proceed =>
    obtain ⟨-, s, rest, hplan, -, rfl⟩ := after?_proceed h
    cases s
    all_goals
      simp only [remaining, passed, hplan, List.length_cons]
      omega
  | exit =>
    obtain ⟨⟨-, -, -, hlive⟩, rfl⟩ := after?_exit h
    simp only [remaining, hlive]
    simp

theorem afterAll?_length {moves : List Move} {e last : Exchange}
    (h : e.afterAll? moves = some last) : moves.length + last.remaining ≤ e.remaining := by
  induction moves generalizing e with
  | nil =>
    cases h
    simp
  | cons move rest ih =>
    obtain ⟨next, hnext, hrest⟩ := Option.bind_eq_some_iff.mp h
    have hstep := remaining_lt hnext
    have htail := ih hrest
    rw [List.length_cons]
    omega

/-- The child goes through its plan from the front. -/
theorem plan_suffix {moves : List Move} {e last : Exchange} (h : e.afterAll? moves = some last) :
    last.plan <:+ e.plan := by
  induction moves generalizing e with
  | nil =>
    cases h
    exact List.suffix_refl _
  | cons move rest ih =>
    obtain ⟨next, hnext, hrest⟩ := Option.bind_eq_some_iff.mp h
    refine (ih hrest).trans ?_
    cases move with
    | send =>
      obtain ⟨-, rfl⟩ := after?_send hnext
      exact List.suffix_refl _
    | close =>
      obtain ⟨-, rfl⟩ := after?_close hnext
      exact List.suffix_refl _
    | drain s =>
      obtain ⟨-, ⟨-, rfl⟩ | ⟨-, rfl⟩⟩ := after?_drain hnext
      all_goals exact List.suffix_refl _
    | proceed =>
      obtain ⟨-, s, rest, hplan, -, rfl⟩ := after?_proceed hnext
      rw [hplan, passed_plan]
      exact List.suffix_cons s rest
    | exit =>
      obtain ⟨-, rfl⟩ := after?_exit hnext
      exact List.suffix_refl _

/-! ## What every move keeps -/

/-- An exchange on its way through a plan. What the child has still to read is unsent or in its
pipe, and until the parent has closed that pipe it has taken nothing of what was written. -/
structure OnItsWay (capacity : Capacity) (plan : List Stream) (e : Exchange) : Prop where
  capacity_eq : e.capacity = capacity
  unread : e.unsent + e.input = e.plan.count .input
  input_le : e.input ≤ capacity.input
  sent : e.isClosed = true → e.unsent = 0
  suffix : ∃ done, plan = done ++ e.plan ∧
    (e.isClosed = false → e.output = done.count .output ∧ e.errors = done.count .errors)
  exited : e.hasExited = true → e.plan = [] ∧ e.isClosed = true

namespace OnItsWay

variable {capacity : Capacity} {plan : List Stream} {e next : Exchange}

theorem of_start (capacity : Capacity) (plan : List Stream) :
    OnItsWay capacity plan (start capacity (plan.count .input) plan) where
  capacity_eq := rfl
  unread := rfl
  input_le := Nat.zero_le _
  sent h := Bool.noConfusion h
  suffix := ⟨[], rfl, fun _ => ⟨rfl, rfl⟩⟩
  exited h := Bool.noConfusion h

variable (h : OnItsWay capacity plan e)
include h

/-- A read takes an octet out of the pipe, a write adds one to what is not taken yet. -/
theorem passed {s : Stream} {rest : List Stream} (hlive : e.hasExited = false)
    (hplan : e.plan = s :: rest) (hready : e.Ready s) :
    OnItsWay capacity plan (e.passed s rest) := by
  obtain ⟨done, hdone, hheld⟩ := h.suffix
  have hunread := h.unread
  have hinput := h.input_le
  rw [hplan] at hdone hunread
  have hsuffix : plan = (done ++ [s]) ++ rest := by rw [hdone, List.append_assoc]; rfl
  have hexited : e.hasExited = true → rest = [] ∧ e.isClosed = true := by
    rw [hlive]
    exact Bool.noConfusion
  have hcount : ∀ t, (done ++ [s]).count t = done.count t + if s = t then 1 else 0 := by
    intro t
    rw [List.count_append, List.count_singleton]
    simp only [beq_iff_eq]
  cases s with
  | input =>
    have hpos : 0 < e.input := hready
    rw [List.count_cons_self] at hunread
    refine ⟨h.capacity_eq, ?_, ?_, h.sent, ⟨_, hsuffix, fun hopen => ?_⟩, hexited⟩
    · show e.unsent + (e.input - 1) = rest.count .input
      omega
    · show e.input - 1 ≤ capacity.input
      omega
    · rw [hcount, hcount]
      exact hheld hopen
  | output =>
    rw [List.count_cons_of_ne (by decide)] at hunread
    refine ⟨h.capacity_eq, hunread, hinput, h.sent, ⟨_, hsuffix, fun hopen => ?_⟩, hexited⟩
    rw [hcount, hcount]
    exact ⟨congrArg (· + 1) (hheld hopen).1, (hheld hopen).2⟩
  | errors =>
    rw [List.count_cons_of_ne (by decide)] at hunread
    refine ⟨h.capacity_eq, hunread, hinput, h.sent, ⟨_, hsuffix, fun hopen => ?_⟩, hexited⟩
    rw [hcount, hcount]
    exact ⟨(hheld hopen).1, congrArg (· + 1) (hheld hopen).2⟩

theorem after? {move : Move} (hmove : e.after? move = some next) :
    OnItsWay capacity plan next := by
  have hunread := h.unread
  cases move with
  | send =>
    obtain ⟨⟨hunsent, hroom⟩, rfl⟩ := after?_send hmove
    rw [h.capacity_eq] at hroom
    refine ⟨h.capacity_eq, ?_, hroom, fun hclosed => ?_, h.suffix, h.exited⟩
    · show e.unsent - 1 + (e.input + 1) = e.plan.count .input
      omega
    · have := h.sent hclosed
      omega
  | close =>
    obtain ⟨⟨hunsent, -⟩, rfl⟩ := after?_close hmove
    obtain ⟨done, hdone, -⟩ := h.suffix
    exact ⟨h.capacity_eq, hunread, h.input_le, fun _ => hunsent, ⟨done, hdone, Bool.noConfusion⟩,
      fun hexited => ⟨(h.exited hexited).1, rfl⟩⟩
  | drain s =>
    obtain ⟨hclosed, hnext⟩ := after?_drain hmove
    obtain ⟨done, hdone, -⟩ := h.suffix
    have hopen : ∀ {p : Prop}, e.isClosed = false → p := by
      rw [hclosed]
      exact Bool.noConfusion
    obtain ⟨-, rfl⟩ | ⟨-, rfl⟩ := hnext
    all_goals exact ⟨h.capacity_eq, hunread, h.input_le, h.sent, ⟨done, hdone, hopen⟩, h.exited⟩
  | proceed =>
    obtain ⟨hlive, s, rest, hplan, hready, rfl⟩ := after?_proceed hmove
    exact h.passed hlive hplan hready
  | exit =>
    obtain ⟨⟨hplan, hclosed, -, -⟩, rfl⟩ := after?_exit hmove
    exact ⟨h.capacity_eq, hunread, h.input_le, h.sent, h.suffix, fun _ => ⟨hplan, hclosed⟩⟩

/-- Any row of moves keeps an exchange on its way. -/
theorem afterAll? {moves : List Move} (hmoves : e.afterAll? moves = some next) :
    OnItsWay capacity plan next := by
  induction moves generalizing e with
  | nil =>
    cases hmoves
    exact h
  | cons move rest ih =>
    obtain ⟨mid, hmid, hrest⟩ := Option.bind_eq_some_iff.mp hmoves
    exact ih (h.after? hmid) hrest

/-- While octets of the request are unsent, the parent has not closed the child's input. -/
theorem open_of_unsent (hunsent : 0 < e.unsent) : e.isClosed = false := by
  refine Bool.eq_false_iff.mpr fun hclosed => ?_
  rw [h.sent hclosed] at hunsent
  exact Nat.lt_irrefl 0 hunsent

/-- Until the parent has closed the child's input, the two other pipes hold what was written. -/
theorem held_add_count (hopen : e.isClosed = false) {s : Stream} (hs : s ≠ .input) :
    e.held s + e.plan.count s = plan.count s := by
  obtain ⟨done, hdone, hheld⟩ := h.suffix
  obtain ⟨houtput, herrors⟩ := hheld hopen
  rw [hdone, List.count_append]
  cases s with
  | input => exact absurd rfl hs
  | output => exact congrArg (· + _) houtput
  | errors => exact congrArg (· + _) herrors

end OnItsWay

/-! ## Stuck exchanges -/

/-- Both sides wait for a full pipe: the parent for the child's input, and the child for the pipe of
its next octet. -/
structure IsBlocked (e : Exchange) : Prop where
  unsent : 0 < e.unsent
  full : e.input = e.capacity.input
  waits : ∃ s rest, e.plan = s :: rest ∧ s ≠ .input ∧ e.capacity.of s ≤ e.held s

variable {capacity : Capacity} {plan : List Stream} {e : Exchange}

theorem not_stuck_of_ready (hlive : e.hasExited = false) {s : Stream} {rest : List Stream}
    (hplan : e.plan = s :: rest) (hready : e.Ready s) : ¬ e.IsStuck := by
  intro hstuck
  have hnone := hstuck .proceed
  rw [after?_proceed_of_ready hlive hplan hready] at hnone
  cases hnone

/-- Once the parent has closed the child's input, the pipes that it can take nothing from are
empty. -/
theorem held_of_stuck (hstuck : e.IsStuck) (hclosed : e.isClosed = true) {s : Stream}
    (hs : s ≠ .input) : e.held s = 0 := by
  have hnone := hstuck (.drain s)
  cases s with
  | input => exact absurd rfl hs
  | output =>
    show e.output = 0
    simpa [after?, hclosed] using hnone
  | errors =>
    show e.errors = 0
    simpa [after?, hclosed] using hnone

theorem closed_of_stuck (hstuck : e.IsStuck) (hsent : e.unsent = 0) : e.isClosed = true := by
  have hnone := hstuck .close
  simpa [after?, hsent] using hnone

namespace OnItsWay

variable (h : OnItsWay capacity plan e)
include h

/-- Once the whole request is written, something can happen until the child exits. -/
theorem not_stuck_of_sent (hlive : e.hasExited = false) (hsent : e.unsent = 0) :
    ¬ e.IsStuck := by
  intro hstuck
  have hunread := h.unread
  have hclosed := closed_of_stuck hstuck hsent
  cases hplan : e.plan with
  | nil =>
    rw [hplan, List.count_nil] at hunread
    have hnone := hstuck .exit
    simp [Exchange.after?, hplan, hclosed, hlive, show e.input = 0 by omega] at hnone
  | cons s rest =>
    refine not_stuck_of_ready hlive hplan ?_ hstuck
    by_cases hs : s = .input
    · subst hs
      rw [hplan, List.count_cons_self] at hunread
      show 0 < e.input
      omega
    · unfold Ready
      rw [if_neg hs, held_of_stuck hstuck hclosed hs]
      exact e.capacity.of_pos s

theorem blocked_of_stuck (hlive : e.hasExited = false) (hstuck : e.IsStuck) : e.IsBlocked := by
  have hunread := h.unread
  have hinput := h.input_le
  have hunsent : 0 < e.unsent :=
    Nat.pos_of_ne_zero fun hsent => h.not_stuck_of_sent hlive hsent hstuck
  have hfull : e.input = e.capacity.input := by
    have hnone := hstuck .send
    simp only [Exchange.after?, hunsent, true_and, ite_eq_right_iff, reduceCtorEq, imp_false]
      at hnone
    rw [h.capacity_eq] at hnone ⊢
    omega
  refine ⟨hunsent, hfull, ?_⟩
  cases hplan : e.plan with
  | nil =>
    rw [hplan, List.count_nil] at hunread
    omega
  | cons s rest =>
    have hwait : ¬ e.Ready s := fun hready => not_stuck_of_ready hlive hplan hready hstuck
    unfold Ready at hwait
    split at hwait
    · have hpos := e.capacity.input_pos
      omega
    · exact ⟨s, rest, rfl, ‹_›, Nat.not_lt.mp hwait⟩

theorem stuck_of_blocked (hblocked : e.IsBlocked) : e.IsStuck := by
  obtain ⟨hunsent, hfull, s, rest, hplan, hs, hheld⟩ := hblocked
  have hopen : e.isClosed ≠ true := Bool.eq_false_iff.mp (h.open_of_unsent hunsent)
  intro move
  cases hmove : e.after? move with
  | none => rfl
  | some next =>
    cases move with
    | send =>
      obtain ⟨⟨-, hroom⟩, -⟩ := after?_send hmove
      omega
    | close =>
      obtain ⟨⟨hsent, -⟩, -⟩ := after?_close hmove
      omega
    | drain t => exact absurd (after?_drain hmove).1 hopen
    | proceed =>
      obtain ⟨-, t, rest', hplan', hready, -⟩ := after?_proceed hmove
      rw [hplan] at hplan'
      cases hplan'
      unfold Ready at hready
      rw [if_neg hs] at hready
      omega
    | exit => exact absurd (after?_exit hmove).1.2.1 hopen

/-- Before the child's exit the stuck exchanges are those in which both sides wait. -/
theorem stuck_iff (hlive : e.hasExited = false) : e.IsStuck ↔ e.IsBlocked :=
  ⟨h.blocked_of_stuck hlive, h.stuck_of_blocked⟩

/-- Nothing is left behind by an exchange that stops after the child's exit. -/
theorem empty_of_stuck (hexited : e.hasExited = true) (hstuck : e.IsStuck) :
    e.unsent = 0 ∧ ∀ s, e.held s = 0 := by
  obtain ⟨hplan, hclosed⟩ := h.exited hexited
  have hunread := h.unread
  rw [hplan, List.count_nil] at hunread
  refine ⟨by omega, fun s => ?_⟩
  by_cases hs : s = .input
  · subst hs
    show e.input = 0
    omega
  · exact held_of_stuck hstuck hclosed hs

/-! ## Runs into a stuck exchange -/

/-- The parent can fill the child's input when there is more to read than it holds. -/
theorem afterAll?_fill (hmore : capacity.input < e.plan.count .input) :
    ∃ moves filled, e.afterAll? moves = some filled ∧ filled.input = capacity.input ∧
      0 < filled.unsent ∧ filled.plan = e.plan ∧ filled.hasExited = e.hasExited ∧
      ∀ s, s ≠ .input → filled.held s = e.held s := by
  have hunread := h.unread
  have hinput := h.input_le
  generalize hroom : capacity.input - e.input = room
  induction room generalizing e with
  | zero => exact ⟨[], e, rfl, by omega, by omega, rfl, rfl, fun _ _ => rfl⟩
  | succ room ih =>
    let next : Exchange := { e with unsent := e.unsent - 1, input := e.input + 1 }
    have hsend : e.after? .send = some next := by
      refine if_pos ⟨by omega, ?_⟩
      rw [h.capacity_eq]
      omega
    have hnext := h.after? hsend
    obtain ⟨moves, filled, hmoves, hfull, hunsent, hplan, hexited, hheld⟩ :=
      ih hnext hmore hnext.unread hnext.input_le (show capacity.input - (e.input + 1) = room by omega)
    refine ⟨.send :: moves, filled, ?_, hfull, hunsent, hplan, hexited, fun s hs => ?_⟩
    · show (e.after? .send).bind _ = _
      rw [hsend]
      exact hmoves
    · rw [hheld s hs]
      cases s with
      | input => exact absurd rfl hs
      | output => rfl
      | errors => rfl

/-- Before a write into a full pipe, the parent runs into a stuck exchange as it goes on writing. -/
theorem exists_stuck_of_full (hlive : e.hasExited = false) {s : Stream} {rest : List Stream}
    (hplan : e.plan = s :: rest) (hs : s ≠ .input) (hfull : capacity.of s ≤ e.held s)
    (hmore : capacity.input < e.plan.count .input) :
    ∃ moves last, e.afterAll? moves = some last ∧ last.hasExited = false ∧ last.IsStuck := by
  obtain ⟨moves, filled, hmoves, hinput, hunsent, hplan', hlive', hheld⟩ :=
    h.afterAll?_fill hmore
  have hfilled := h.afterAll? hmoves
  have hlive := hlive'.trans hlive
  refine ⟨moves, filled, hmoves, hlive, (hfilled.stuck_iff hlive).mpr ⟨hunsent, ?_, ?_⟩⟩
  · rw [hfilled.capacity_eq]
    exact hinput
  · refine ⟨s, rest, hplan'.trans hplan, hs, ?_⟩
    rw [hfilled.capacity_eq, hheld s hs]
    exact hfull

/-- A plan with a write that finds no room runs into a stuck exchange, there or before. -/
theorem exists_stuck (hlive : e.hasExited = false) {s : Stream} {done rest : List Stream}
    (hplan : e.plan = done ++ s :: rest) (hs : s ≠ .input)
    (hfull : capacity.of s ≤ e.held s + done.count s)
    (hmore : capacity.input < rest.count .input) :
    ∃ moves last, e.afterAll? moves = some last ∧ last.hasExited = false ∧ last.IsStuck := by
  have hread : capacity.input < e.plan.count .input := by
    rw [hplan, List.count_append, List.count_cons]
    omega
  induction done generalizing e with
  | nil => exact h.exists_stuck_of_full hlive hplan hs (by simpa using hfull) hread
  | cons t done ih =>
    by_cases hwrite : t ≠ .input ∧ capacity.of t ≤ e.held t
    · exact h.exists_stuck_of_full hlive hplan hwrite.1 hwrite.2 hread
    -- otherwise the child goes on, once the parent has filled its input
    obtain ⟨moves, filled, hmoves, hinput, -, hplan', hlive', hheld⟩ := h.afterAll?_fill hread
    have hfilled := h.afterAll? hmoves
    have hready : filled.Ready t := by
      unfold Ready
      split
      · rw [hinput]
        exact capacity.input_pos
      · rename_i ht
        rw [hfilled.capacity_eq, hheld t ht]
        exact Nat.not_le.mp fun hle => hwrite ⟨ht, hle⟩
    have hproceed :=
      after?_proceed_of_ready (hlive'.trans hlive) (hplan'.trans hplan) hready
    have hpassed := hfilled.after? hproceed
    have hcount : (filled.passed t (done ++ s :: rest)).held s + done.count s
        = e.held s + (t :: done).count s := by
      rw [held_passed t _ hs, hheld s hs, List.count_cons]
      simp only [beq_iff_eq]
      omega
    have hread' : capacity.input < (done ++ s :: rest).count .input := by
      rw [List.count_append, List.count_cons]
      omega
    have hlivePassed := (passed_hasExited t (done ++ s :: rest)).trans (hlive'.trans hlive)
    obtain ⟨more, last, hmore', hlast⟩ := ih hpassed hlivePassed (passed_plan ..) (hcount ▸ hfull)
      (by rwa [passed_plan])
    refine ⟨moves ++ .proceed :: more, last, ?_, hlast⟩
    rw [afterAll?_append, hmoves]
    show (filled.after? .proceed).bind _ = _
    rw [hproceed]
    exact hmore'

end OnItsWay

/-! ## Exchanges that never get stuck -/

variable {request : Nat}

theorem OnItsWay.of_reads (hreads : ReadsAll request plan) {moves : List Move}
    (hmoves : (start capacity request plan).afterAll? moves = some e) :
    OnItsWay capacity plan e := by
  have hstart := OnItsWay.of_start capacity plan
  rw [show plan.count .input = request from hreads] at hstart
  exact hstart.afterAll? hmoves

/-- Where every octet finds room, the child cannot wait for a full pipe with the parent. -/
theorem FindsRoom.not_stuck (hroom : FindsRoom capacity request plan)
    (hreads : ReadsAll request plan) {moves : List Move}
    (hmoves : (start capacity request plan).afterAll? moves = some e)
    (hlive : e.hasExited = false) : ¬ e.IsStuck := by
  have h := OnItsWay.of_reads hreads hmoves
  intro hstuck
  obtain ⟨hunsent, hfull, s, rest, hplan, hs, hheld⟩ := (h.stuck_iff hlive).mp hstuck
  have hopen := h.open_of_unsent hunsent
  obtain ⟨done, hdone, -⟩ := h.suffix
  have hunread := h.unread
  have hwritten := h.held_add_count hopen hs
  have htotal : plan.count .input = request := hreads
  rw [h.capacity_eq] at hfull hheld
  rw [hdone, List.count_append] at hwritten htotal
  rcases hroom done s rest (hplan ▸ hdone) hs with hlt | hle
  · omega
  · omega

/-- An exchange that never gets stuck finds room for every octet. -/
theorem FindsRoom.of_never_stuck (hreads : ReadsAll request plan)
    (hprogress : ∀ moves e, (start capacity request plan).afterAll? moves = some e →
      e.hasExited = false → ¬ e.IsStuck) : FindsRoom capacity request plan := by
  intro done s rest hplan hs
  by_cases hroom : done.count s < capacity.of s
  · exact .inl hroom
  by_cases hlate : request ≤ done.count .input + capacity.input
  · exact .inr hlate
  have hnone : (start capacity request plan).afterAll? [] = some (start capacity request plan) := rfl
  have hstart := OnItsWay.of_reads hreads hnone
  have htotal : plan.count .input = request := hreads
  rw [hplan, List.count_append, List.count_cons_of_ne hs] at htotal
  have hfull : capacity.of s ≤ (start capacity request plan).held s + done.count s := by omega
  have hmore : capacity.input < rest.count .input := by omega
  obtain ⟨moves, last, hmoves, hlive, hstuck⟩ := hstart.exists_stuck rfl hplan hs hfull hmore
  exact absurd hstuck (hprogress moves last hmoves hlive)

/-- A run of an exchange in which the child reads its whole input.

No state before the child's exit is stuck exactly when every octet that the child writes finds room:
within its pipe though nothing is taken out, or after so much was read that the rest of the request
fits into the child's input. Every run is finite; and where every octet finds room, a run that cannot
go on has come to the child's exit and left nothing in the pipes. -/
theorem never_stuck_iff (capacity : Capacity) (request : Nat) (plan : List Stream)
    (hreads : ReadsAll request plan) :
    ((∀ moves e, (start capacity request plan).afterAll? moves = some e →
        e.hasExited = false → ¬ e.IsStuck) ↔
      FindsRoom capacity request plan) ∧
    (∀ moves e, (start capacity request plan).afterAll? moves = some e →
      moves.length ≤ request + 2 * plan.length + 2 ∧
      (FindsRoom capacity request plan → e.IsStuck →
        e.hasExited = true ∧ e.unsent = 0 ∧ ∀ s, e.held s = 0)) := by
  refine ⟨⟨.of_never_stuck hreads, fun hroom moves e hmoves => hroom.not_stuck hreads hmoves⟩, ?_⟩
  intro moves e hmoves
  refine ⟨?_, fun hroom hstuck => ?_⟩
  · have hlength := afterAll?_length hmoves
    have hremaining : (start capacity request plan).remaining = request + 2 * plan.length + 2 := rfl
    omega
  · cases hexited : e.hasExited with
    | false => exact absurd hstuck (hroom.not_stuck hreads hmoves hexited)
    | true => exact ⟨rfl, (OnItsWay.of_reads hreads hmoves).empty_of_stuck hexited hstuck⟩

/-! ## Plans in which every octet finds room -/

/-- A request that fits into the child's input is written at once, whatever the child does. -/
theorem findsRoom_of_fits (h : request ≤ capacity.input) (plan : List Stream) :
    FindsRoom capacity request plan :=
  fun _ _ _ _ _ => .inr (by omega)

/-- A child that writes within the capacities never waits. -/
theorem findsRoom_of_writes_le (h : ∀ s, s ≠ .input → plan.count s ≤ capacity.of s)
    (request : Nat) : FindsRoom capacity request plan := by
  intro done s rest hplan hs
  left
  have hle := h s hs
  rw [hplan, List.count_append, List.count_cons_self] at hle
  omega

/-- A child that reads its whole input before it writes anything may write as much as it likes. -/
theorem findsRoom_of_reads_first (capacity : Capacity) (request : Nat) (writes : List Stream) :
    FindsRoom capacity request (List.replicate request .input ++ writes) := by
  intro done s rest hplan hs
  right
  rcases List.append_eq_append_iff.mp hplan with ⟨more, rfl, -⟩ | ⟨unread, hreads, hrest⟩
  · rw [List.count_append, List.count_replicate_self]
    omega
  · cases unread with
    | nil =>
      rw [List.append_nil] at hreads
      rw [← hreads, List.count_replicate_self]
      omega
    | cons first unread =>
      -- the write would be one of the reads
      have hfirst : first = .input :=
        List.eq_of_mem_replicate (hreads ▸ List.mem_append_right done List.mem_cons_self)
      cases hrest
      exact absurd hfirst hs

/-- Pipes of one octet each. -/
def narrow : Capacity := ⟨1, 1, 1, by decide, by decide, by decide⟩

theorem never_stuck_iff_narrow : ReadsAll 2 [.input, .input, .output, .output] ∧
    FindsRoom narrow 2 [.input, .input, .output, .output] ∧
    ∀ moves e, (start narrow 2 [.input, .input, .output, .output]).afterAll? moves = some e →
      e.hasExited = false → ¬ e.IsStuck := by
  have hroom := findsRoom_of_reads_first narrow 2 [.output, .output]
  obtain ⟨hiff, -⟩ := never_stuck_iff narrow 2 [.input, .input, .output, .output] rfl
  exact ⟨rfl, hroom, hiff.mpr hroom⟩

/-- A child that answers with two octets before it reads its input of two: both sides come to wait,
the parent with one octet in the child's input, the child with one in its output. -/
theorem stuck_of_early_answer : ReadsAll 2 [.output, .output, .input, .input] ∧
    ∃ moves e, (start narrow 2 [.output, .output, .input, .input]).afterAll? moves = some e ∧
      e.hasExited = false ∧ e.IsStuck := by
  refine ⟨rfl, [.send, .proceed], ⟨narrow, 1, false, 1, 1, 0, [.output, .input, .input], false⟩, rfl,
    rfl, fun move => ?_⟩
  cases move with
  | drain s => cases s <;> rfl
  | _ => rfl

end Exchange

end Placement
