import Placement.Proofs.External.Deadlock
import Placement.Script.Machine
/-
  The pipes of a script. The machine that scripts run on has no parent beside it: it stops by itself
  at a write that an exchange with its parent would not get past (`Machine.write`).

  * `write_stalls_iff`: it stops where the text does not fit into the pipe and the rest of the
    request not into the machine's input.
  * `write_stalls_iff_stuck`: it stops exactly where the exchange that it is part of (`exchange`)
    can get stuck. GIVEN that it is running, has taken whole pages of its input, and writes
    something.
-/
namespace Placement.Script.Machine

variable {m : Machine}

/-- A machine that has taken whole pages is awaited as long as more of the request is left than its
pipe holds. -/
theorem isAwaited_iff (hpages : pageSize ∣ m.taken) :
    m.isAwaited = true ↔ m.taken + pipeSize < m.request := by
  obtain ⟨pages, htaken⟩ := hpages
  unfold isAwaited pipeSize
  unfold pageSize at *
  rw [decide_eq_true_iff, htaken]
  omega

/-- A machine stops at a write exactly when the text finds no room: it does not fit into the pipe
with what is there, and the rest of the request does not fit into the machine's input. -/
theorem write_stalls_iff (hpages : pageSize ∣ m.taken) (hrunning : m.ended = none) {i : Nat}
    (hpipe : i < 2) {b : Buffer} (hb : m.buffers[i]? = some b) (text : Raw) :
    (m.write (.buffer i) text).ended.isSome = true
      ↔ pipeSize < b.size + text.length ∧ m.taken + pipeSize < m.request := by
  have hsink : (Sink.buffer i).isPipe = true := decide_eq_true hpipe
  have hstop : ((decide (pipeSize < b.size + text.length) && m.isAwaited) = true)
      ↔ pipeSize < b.size + text.length ∧ m.taken + pipeSize < m.request := by
    rw [Bool.and_eq_true, decide_eq_true_iff, isAwaited_iff hpages]
  rw [← hstop]
  simp only [write, hb, hsink, Bool.true_and, Option.any_some]
  split
  · exact iff_of_true rfl ‹_›
  · refine iff_of_false ?_ ‹_›
    simp [hrunning]

/-! ## The exchange of a machine -/

/-- The pipes of a machine. -/
def pipes : Capacity := ⟨pipeSize, pipeSize, pipeSize, by decide, by decide, by decide⟩

/-- The stream that a buffer is the pipe of. -/
def stream (i : Nat) : Stream := if i = 0 then .output else .errors

theorem stream_ne_input (i : Nat) : stream i ≠ .input := by
  unfold stream
  split <;> decide

/-- How much has been written to a buffer. -/
def size (m : Machine) (i : Nat) : Nat := ((m.buffers[i]?).map Buffer.size).getD 0

/-- The exchange that a machine is part of as it comes to write so many octets to a stream, the rest
of the request being still to be read. -/
def exchange (m : Machine) (s : Stream) (octets : Nat) : Exchange where
  capacity := pipes
  unsent := m.request - m.taken
  isClosed := false
  input := 0
  output := m.size 0
  errors := m.size 1
  plan := List.replicate octets s ++ List.replicate (m.request - m.taken) .input
  hasExited := false

/-- What the machine has written so far, as the child of an exchange. -/
def past (m : Machine) : List Stream :=
  List.replicate (m.size 0) .output ++ List.replicate (m.size 1) .errors

theorem held_exchange {i : Nat} (hpipe : i < 2) (s : Stream) (octets : Nat) :
    (m.exchange s octets).held (stream i) = m.size i := by
  obtain rfl | rfl : i = 0 ∨ i = 1 := by omega
  · rfl
  · rfl

theorem of_pipes (s : Stream) : pipes.of s = pipeSize := by
  cases s <;> rfl

theorem count_past (m : Machine) {i : Nat} (hpipe : i < 2) : m.past.count (stream i) = m.size i := by
  obtain rfl | rfl : i = 0 ∨ i = 1 := by omega
  · simp [past, stream, List.count_replicate]
  · simp [past, stream, List.count_replicate]

theorem count_input_exchange {s : Stream} (hs : s ≠ .input) (octets : Nat) :
    (m.exchange s octets).plan.count .input = m.request - m.taken := by
  unfold exchange
  rw [List.count_append, List.count_replicate_self, List.count_replicate,
    if_neg (by simpa using hs), Nat.zero_add]

theorem count_write_exchange {s : Stream} (hs : s ≠ .input) (octets : Nat) :
    (m.exchange s octets).plan.count s = octets := by
  unfold exchange
  rw [List.count_append, List.count_replicate_self, List.count_replicate,
    if_neg (by simpa using hs.symm), Nat.add_zero]

theorem onItsWay_exchange {s : Stream} (hs : s ≠ .input) (octets : Nat) :
    Exchange.OnItsWay pipes (m.past ++ (m.exchange s octets).plan) (m.exchange s octets) where
  capacity_eq := rfl
  unread := (count_input_exchange hs octets).symm
  input_le := Nat.zero_le _
  sent h := Bool.noConfusion h
  suffix := ⟨m.past, rfl, fun _ => ⟨(m.count_past (by decide : 0 < 2)).symm,
    (m.count_past (by decide : 1 < 2)).symm⟩⟩
  exited h := Bool.noConfusion h

/-- A machine stops at a write exactly when the exchange can get stuck that the write is part of. -/
theorem write_stalls_iff_stuck (hpages : pageSize ∣ m.taken) (hrunning : m.ended = none) {i : Nat}
    (hpipe : i < 2) {b : Buffer} (hb : m.buffers[i]? = some b) {text : Raw} (htext : text ≠ []) :
    (m.write (.buffer i) text).ended.isSome = true ↔
      ∃ moves e, (m.exchange (stream i) text.length).afterAll? moves = some e ∧
        e.hasExited = false ∧ e.IsStuck := by
  have hsize : m.size i = b.size := by rw [size, hb]; rfl
  have hs := stream_ne_input i
  have hway := onItsWay_exchange (m := m) hs text.length
  rw [write_stalls_iff hpages hrunning hpipe hb]
  constructor
  · rintro ⟨hfull, hmore⟩
    obtain ⟨octets, hlength⟩ := Nat.exists_eq_succ_of_ne_zero (mt List.length_eq_zero_iff.mp htext)
    have hplan : (m.exchange (stream i) text.length).plan = List.replicate octets (stream i)
        ++ stream i :: List.replicate (m.request - m.taken) .input := by
      unfold exchange
      rw [hlength, List.replicate_succ', List.append_assoc]
      rfl
    refine hway.exists_stuck rfl hplan hs ?_ ?_
    · rw [of_pipes, held_exchange hpipe, hsize, List.count_replicate_self]
      omega
    · rw [List.count_replicate_self]
      show pipeSize < _
      omega
  · rintro ⟨moves, e, hmoves, hlive, hstuck⟩
    have hlast := hway.afterAll? hmoves
    obtain ⟨hunsent, hfull, s, rest, hplan, hwrite, hheld⟩ := (hlast.stuck_iff hlive).mp hstuck
    have hsuffix := Exchange.plan_suffix hmoves
    -- the child can only be at the write, or at a read behind it
    obtain rfl : s = stream i := by
      have hmem := hsuffix.subset (hplan ▸ List.mem_cons_self)
      rcases List.mem_append.mp hmem with hmem | hmem
      · exact List.eq_of_mem_replicate hmem
      · exact absurd (List.eq_of_mem_replicate hmem) hwrite
    have hunread := hlast.unread
    have hleft := hsuffix.sublist.count_le .input
    have hwritten := hlast.held_add_count (hlast.open_of_unsent hunsent) hwrite
    rw [count_input_exchange hs] at hleft
    rw [List.count_append, count_past m hpipe, hsize, count_write_exchange hs, hplan,
      List.count_cons_self] at hwritten
    rw [hlast.capacity_eq, of_pipes] at hheld
    rw [hlast.capacity_eq, show pipes.input = pipeSize from rfl] at hfull
    omega

end Placement.Script.Machine
