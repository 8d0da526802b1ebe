import Mathlib.Data.List.Induction
import Placement.Auction
import Placement.Proofs.Double.Order
/-
  Who wins an auction. Names may repeat, so a winner is a position: `Wins values i` says that `i` is
  the first position of the highest value and that this value is above 0, and `Decides` that a name
  is that of the winning position, or `none` when nothing wins.

  * `leading_foldl`: the invariant of the fold, the first of the highest so far leads.
  * `decides_winner?`: the fold over any list of bids `Decides`.
  * `winner?_first_highest`: the same without positions, by the bids before and after the winner.

  A bid may be any double or absent; `worth` makes a level of it first.
-/
namespace Placement.Auction

open Double

/-! ## What an auction is to decide -/

/-- The value `v` stands at position `i`, none is higher, and none before it is as high. -/
def Leads (values : List Float) (i : Nat) (v : Float) : Prop :=
  values[i]? = some v ∧ ∀ j w, values[j]? = some w → w ≤ v ∧ (j < i → w < v)

/-- Position `i` leads with a value above 0. -/
def Wins (values : List Float) (i : Nat) : Prop := ∃ v, Leads values i v ∧ 0 < v

/-- An answer is the name of the position that wins, or none when no value is above 0. -/
def Decides (names : List String) (values : List Float) : Option String → Prop
  | some name => ∃ i, Wins values i ∧ names[i]? = some name
  | none => ∀ v ∈ values, ¬ 0 < v

/-- At most one position wins. -/
theorem Wins.unique {values : List Float} {i j : Nat} (hi : Wins values i) (hj : Wins values j) :
    i = j := by
  obtain ⟨v, ⟨hv, hvi⟩, -⟩ := hi
  obtain ⟨w, ⟨hw, hwj⟩, -⟩ := hj
  rcases Nat.lt_trichotomy i j with h | h | h
  · exact absurd ((hwj i v hv).2 h) (not_lt_of_le (hvi j w hw).1)
  · exact h
  · exact absurd ((hvi j w hw).2 h) (not_lt_of_le (hwj i v hv).1)

/-- A position whose value is not above 0 does not win. -/
theorem not_wins {values : List Float} {i : Nat} {v : Float} (hv : values[i]? = some v)
    (h : ¬ 0 < v) : ¬ Wins values i := by
  rintro ⟨w, ⟨hw, -⟩, hpos⟩
  rw [hv] at hw
  cases hw
  exact h hpos

/-! ## The leader so far -/

/-- What a bid counts for is a number. -/
theorem isNaN_worth (bid : Option Float) : (worth bid).isNaN = false := by
  cases bid with
  | none => decide
  | some v => exact isNaN_sanitize v

/-- What the entries count for, in their order. -/
def worths (entries : List (String × Option Float)) : List Float :=
  (entries.map Prod.snd).map worth

/-- The leader after some entries holds the name and the value of the position that leads. -/
def Leading (entries : List (String × Option Float)) : Option (String × Float) → Prop
  | none => entries = []
  | some (name, value) =>
    ∃ i, Leads (worths entries) i value ∧ (entries.map Prod.fst)[i]? = some name

theorem worths_snoc (entries : List (String × Option Float)) (entry : String × Option Float) :
    worths (entries ++ [entry]) = worths entries ++ [worth entry.2] := by
  simp [worths]

/-- A leader stays in the lead when the next value is not higher. -/
theorem Leads.snoc {values : List Float} {i : Nat} {v w : Float} (h : Leads values i v)
    (hw : w ≤ v) : Leads (values ++ [w]) i v := by
  have hi : i < values.length := (List.getElem?_eq_some_iff.mp h.1).1
  refine ⟨by rw [List.getElem?_append_left hi, h.1], ?_⟩
  intro j u hu
  rw [List.getElem?_append] at hu
  split at hu
  · exact h.2 j u hu
  · have hu' : u = w := by
      simpa using (List.mem_of_getElem? hu)
    subst hu'
    exact ⟨hw, fun hj => by omega⟩

/-- A value that is higher than the leader's takes the lead. -/
theorem Leads.overtaken {values : List Float} {i : Nat} {v w : Float} (h : Leads values i v)
    (hw : v < w) : Leads (values ++ [w]) values.length w := by
  refine ⟨by simp, ?_⟩
  intro j u hu
  rw [List.getElem?_append] at hu
  split at hu
  · have huw : u < w := lt_of_le_of_lt (h.2 j u hu).1 hw
    exact ⟨le_of_lt huw, fun _ => huw⟩
  · have hu' : u = w := by
      simpa using (List.mem_of_getElem? hu)
    subst hu'
    exact ⟨le_refl (isNaN_of_lt hw).2, fun hj => by omega⟩

/-- One more bid: the leader of the longer row. -/
theorem Leading.lead {entries : List (String × Option Float)} {leader : Option (String × Float)}
    (h : Leading entries leader) (entry : String × Option Float) :
    Leading (entries ++ [entry]) (lead leader entry) := by
  cases leader with
  | none =>
    subst h
    refine ⟨0, ⟨rfl, ?_⟩, rfl⟩
    intro j u hu
    have hu' : u = worth entry.2 := by simpa [worths] using List.mem_of_getElem? hu
    subst hu'
    exact ⟨le_refl (isNaN_worth _), fun hj => by omega⟩
  | some held =>
    obtain ⟨name, value⟩ := held
    obtain ⟨i, hlead, hname⟩ := h
    have hi : i < (entries.map Prod.fst).length := (List.getElem?_eq_some_iff.mp hname).1
    by_cases hle : worth entry.2 ≤ value
    · have hkept : Auction.lead (some (name, value)) entry = some (name, value) := if_pos hle
      rw [hkept]
      refine ⟨i, ?_, ?_⟩
      · rw [worths_snoc]
        exact hlead.snoc hle
      · rw [List.map_append, List.getElem?_append_left hi, hname]
    · have htaken : Auction.lead (some (name, value)) entry = some (entry.1, worth entry.2) :=
        if_neg hle
      have hlt : value < worth entry.2 := by
        have hv : value.isNaN = false := isNaN_of_le (hlead.2 i value hlead.1).1 |>.1
        rw [lt_iff_rank hv (isNaN_worth _)]
        rw [le_iff_rank (isNaN_worth _) hv] at hle
        exact lt_of_not_ge hle
      rw [htaken]
      refine ⟨(worths entries).length, ?_, ?_⟩
      · rw [worths_snoc]
        exact hlead.overtaken hlt
      · simp [worths]

/-- The fold over any row of bids ends with the position that leads it. -/
theorem leading_foldl (entries : List (String × Option Float)) :
    Leading entries (entries.foldl lead none) := by
  induction entries using List.reverseRecOn with
  | nil => rfl
  | append_singleton entries entry ih =>
    rw [List.foldl_append]
    exact ih.lead entry

/-! ## The winner -/

/-- An auction names the first of the highest bids if it is above 0, and otherwise no one. -/
theorem decides_winner? (entries : List (String × Option Float)) :
    Decides (entries.map Prod.fst) (worths entries) (winner? entries) := by
  have h := leading_foldl entries
  unfold winner?
  cases hl : entries.foldl lead none with
  | none =>
    rw [hl] at h
    subst h
    intro v hv
    exact absurd hv List.not_mem_nil
  | some held =>
    obtain ⟨name, value⟩ := held
    rw [hl] at h
    obtain ⟨i, hlead, hname⟩ := h
    simp only
    split
    · rename_i hpos
      exact ⟨i, ⟨value, hlead, hpos⟩, hname⟩
    · rename_i hpos
      intro v hv hv0
      obtain ⟨j, hj⟩ := List.mem_iff_getElem?.mp hv
      exact hpos (lt_of_lt_of_le hv0 (hlead.2 j v hj).1)

/-- An auction of names and bids in two rows of one length. -/
theorem decides_zip {names : List String} {bids : List (Option Float)}
    (h : names.length = bids.length) :
    Decides names (bids.map worth) (winner? (names.zip bids)) := by
  have hd := decides_winner? (names.zip bids)
  unfold worths at hd
  rw [List.map_fst_zip (Nat.le_of_eq h), List.map_snd_zip (Nat.le_of_eq h.symm)] at hd
  exact hd

/-! ## The first of the highest -/

/-- No entry before this one counts for as much, and none behind it for more. -/
def IsFirstHighest (before : List (String × Option Float)) (bid : Option Float)
    (after : List (String × Option Float)) : Prop :=
  (∀ entry ∈ before, worth entry.2 < worth bid) ∧ ∀ entry ∈ after, worth entry.2 ≤ worth bid

/-- What a bid counts for is not negative. -/
theorem zero_le_worth (bid : Option Float) : 0 ≤ worth bid := by
  cases bid with
  | none => decide
  | some v => exact zero_le_sanitize v

theorem worths_getElem? (entries : List (String × Option Float)) (j : Nat) :
    (worths entries)[j]? = (entries[j]?).map fun entry => worth entry.2 := by
  unfold worths
  rw [List.map_map, List.getElem?_map]
  rfl

/-- The first of the highest leads at its position. -/
theorem IsFirstHighest.leads {before after : List (String × Option Float)} {bid : Option Float}
    (h : IsFirstHighest before bid after) (name : String) :
    Leads (worths (before ++ (name, bid) :: after)) before.length (worth bid) := by
  refine ⟨by rw [worths_getElem?, List.getElem?_append_right (Nat.le_refl _)]; simp, ?_⟩
  intro j w hw
  rw [worths_getElem?, Option.map_eq_some_iff] at hw
  obtain ⟨entry, hentry, rfl⟩ := hw
  obtain hlt | rfl | hgt := Nat.lt_trichotomy j before.length
  · rw [List.getElem?_append_left hlt] at hentry
    have hless := h.1 entry (List.mem_of_getElem? hentry)
    exact ⟨le_of_lt hless, fun _ => hless⟩
  · rw [List.getElem?_append_right (Nat.le_refl _), Nat.sub_self, List.getElem?_cons_zero,
      Option.some_inj] at hentry
    subst hentry
    exact ⟨le_refl (isNaN_worth bid), fun hj => absurd hj (Nat.lt_irrefl _)⟩
  · obtain ⟨k, rfl⟩ : ∃ k, j = before.length + (k + 1) := ⟨j - before.length - 1, by omega⟩
    rw [List.getElem?_append_right (Nat.le_add_right _ _), Nat.add_sub_cancel_left,
      List.getElem?_cons_succ] at hentry
    exact ⟨h.2 entry (List.mem_of_getElem? hentry), fun hj => absurd hj (by omega)⟩

/-- What leads is the first of the highest. -/
theorem Leads.split {entries : List (String × Option Float)} {i : Nat} {v : Float} {name : String}
    (h : Leads (worths entries) i v) (hname : (entries.map Prod.fst)[i]? = some name) :
    ∃ before bid after, entries = before ++ (name, bid) :: after ∧ v = worth bid ∧
      IsFirstHighest before bid after := by
  rw [List.getElem?_map, Option.map_eq_some_iff] at hname
  obtain ⟨⟨_, bid⟩, hentry, rfl⟩ := hname
  obtain ⟨hi, hget⟩ := List.getElem?_eq_some_iff.mp hentry
  have hworth := h.1
  rw [worths_getElem?, hentry, Option.map_some, Option.some_inj] at hworth
  dsimp only at hworth
  refine ⟨entries.take i, bid, entries.drop (i + 1), ?_, hworth.symm, ?_, ?_⟩
  · rw [← hget, ← List.drop_eq_getElem_cons hi, List.take_append_drop]
  · intro entry hmem
    obtain ⟨j, hj, rfl⟩ := List.mem_take_iff_getElem.mp hmem
    rw [hworth]
    refine (h.2 j _ ?_).2 (by omega)
    rw [worths_getElem?, List.getElem?_eq_getElem (by omega), Option.map_some]
  · intro entry hmem
    obtain ⟨j, hj, rfl⟩ := List.mem_drop_iff_getElem.mp hmem
    rw [hworth]
    refine (h.2 (i + 1 + j) _ ?_).1
    rw [worths_getElem?, List.getElem?_eq_getElem (by omega), Option.map_some]

/-- Whatever bids were collected, under names that may repeat: no one wins exactly if every bid
counts for zero, and a name wins exactly if one of its bids counts for more than zero, for more than
any before it and for at least as much as any behind it. -/
theorem winner?_first_highest (entries : List (String × Option Float)) :
    (winner? entries = none ↔ ∀ entry ∈ entries, (worth entry.2 == 0) = true) ∧
    ∀ name, winner? entries = some name ↔
      ∃ before bid after, entries = before ++ (name, bid) :: after ∧ ¬ (worth bid == 0) = true ∧
        IsFirstHighest before bid after := by
  have hdecides := decides_winner? entries
  have hmem : ∀ entry ∈ entries, worth entry.2 ∈ worths entries := by
    intro entry hentry
    unfold worths
    rw [List.map_map]
    exact List.mem_map_of_mem hentry
  have hzero : ∀ bid, (worth bid == 0) = true ↔ ¬ 0 < worth bid := fun bid =>
    beq_zero_iff (zero_le_worth bid)
  simp only [hzero, not_not]
  constructor
  · constructor
    · intro hnone entry hentry
      rw [hnone] at hdecides
      exact hdecides _ (hmem entry hentry)
    · intro hall
      cases hw : winner? entries with
      | none => rfl
      | some name =>
        rw [hw] at hdecides
        obtain ⟨i, ⟨v, hlead, hpos⟩, hname⟩ := hdecides
        obtain ⟨before, bid, after, rfl, rfl, -⟩ := hlead.split hname
        exact absurd hpos (hall (name, bid) (List.mem_append_right _ List.mem_cons_self))
  · intro name
    constructor
    · intro hw
      rw [hw] at hdecides
      obtain ⟨i, ⟨v, hlead, hpos⟩, hname⟩ := hdecides
      obtain ⟨before, bid, after, hsplit, rfl, hfirst⟩ := hlead.split hname
      exact ⟨before, bid, after, hsplit, hpos, hfirst⟩
    · rintro ⟨before, bid, after, rfl, hpos, hfirst⟩
      have hwins : Wins (worths (before ++ (name, bid) :: after)) before.length :=
        ⟨worth bid, hfirst.leads name, hpos⟩
      cases hw : winner? (before ++ (name, bid) :: after) with
      | none =>
        rw [hw] at hdecides
        exact absurd hpos
          (hdecides _ (hmem (name, bid) (List.mem_append_right _ List.mem_cons_self)))
      | some name' =>
        -- only one position wins, so the name found is the one that stands there
        rw [hw] at hdecides
        obtain ⟨i, hi, hname⟩ := hdecides
        rw [hi.unique hwins, List.getElem?_map, List.getElem?_append_right (Nat.le_refl _),
          Nat.sub_self] at hname
        exact hname.symm

end Placement.Auction
