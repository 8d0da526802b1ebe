import Mathlib.Data.List.Induction
import Mathlib.Data.List.Nodup
import Mathlib.Data.String.Basic
import Placement.Json.Value
/-
  Members of an object under their keys. `find?_set`: setting a key changes what is found under it
  and nothing else. `find?_gather`: gathered members hold under each key what was given for it last,
  and `nodup_gather` each key once. `find?_gather_of_nodup`: with distinct keys nothing is lost.
-/
namespace Placement.Json.Members

theorem find?_cons (k : String) (v : Json) (rest : Members) (key : String) :
    find? ((k, v) :: rest) key = if key = k then some v else find? rest key := by
  unfold find?
  rw [List.lookup_cons]
  by_cases h : key = k
  · rw [if_pos h, beq_iff_eq.mpr h]
  · rw [if_neg h, beq_eq_false_iff_ne.mpr h]

theorem find?_append (first rest : Members) (key : String) :
    find? (first ++ rest) key = (find? first key).or (find? rest key) :=
  List.lookup_append

/-- Under a key that is set stands the new value, under every other one what stood there. -/
theorem find?_set (members : Members) (key : String) (value : Json) (k : String) :
    find? (set key value members) k = if k = key then some value else find? members k := by
  induction members with
  | nil => exact find?_cons key value [] k
  | cons member rest ih =>
    obtain ⟨k', v⟩ := member
    unfold set
    split
    · rw [find?_cons]
    split
    · rename_i h
      subst h
      rw [find?_cons, find?_cons]
      split <;> rfl
    · rename_i hne
      rw [find?_cons, ih, find?_cons]
      by_cases hk : k = k'
      · rw [if_pos hk, if_pos hk, if_neg (by rintro rfl; exact hne hk)]
      · rw [if_neg hk, if_neg hk]

theorem mem_set {members : Members} {key : String} {value : Json} {m : String × Json}
    (h : m ∈ set key value members) : m = (key, value) ∨ m ∈ members := by
  induction members with
  | nil => exact .inl (List.mem_singleton.mp h)
  | cons member rest ih =>
    obtain ⟨k, v⟩ := member
    unfold set at h
    split at h
    · exact List.mem_cons.mp h
    split at h
    · rcases List.mem_cons.mp h with h | h
      · exact .inl h
      · exact .inr (List.mem_cons_of_mem _ h)
    · rcases List.mem_cons.mp h with h | h
      · exact .inr (h ▸ List.mem_cons_self)
      · rcases ih h with h | h
        · exact .inl h
        · exact .inr (List.mem_cons_of_mem _ h)

theorem gather_snoc (entries : List (String × Json)) (entry : String × Json) :
    gather (entries ++ [entry]) = set entry.1 entry.2 (gather entries) := by
  unfold gather
  rw [List.foldl_append]
  rfl

/-- Keys in ascending order. -/
def Ascending (members : Members) : Prop := members.Pairwise fun m m' => m.1 < m'.1

/-- A key is set in its place in the order. -/
theorem ascending_set {members : Members} (h : members.Ascending) (key : String) (value : Json) :
    (set key value members).Ascending := by
  induction members with
  | nil => exact List.pairwise_singleton _ _
  | cons member rest ih =>
    obtain ⟨k, v⟩ := member
    obtain ⟨hk, hrest⟩ := List.pairwise_cons.mp h
    unfold set
    split
    · rename_i hlt
      refine List.pairwise_cons.mpr ⟨fun m hm => ?_, h⟩
      rcases List.mem_cons.mp hm with rfl | hm
      · exact hlt
      · exact lt_trans hlt (hk m hm)
    split
    · rename_i heq
      subst heq
      exact List.pairwise_cons.mpr ⟨hk, hrest⟩
    · rename_i hlt hne
      refine List.pairwise_cons.mpr ⟨fun m hm => ?_, ih hrest⟩
      rcases mem_set hm with rfl | hm
      · exact lt_of_le_of_ne (not_lt.mp hlt) (Ne.symm hne)
      · exact hk m hm

/-- Gathered members stand in the order of their keys. -/
theorem ascending_gather (entries : List (String × Json)) : (gather entries).Ascending := by
  induction entries using List.reverseRecOn with
  | nil => exact List.Pairwise.nil
  | append_singleton entries entry ih =>
    rw [gather_snoc]
    exact ascending_set ih _ _

/-- Gathered members have distinct keys. -/
theorem nodup_gather (entries : List (String × Json)) : ((gather entries).map Prod.fst).Nodup :=
  List.pairwise_map.mpr ((ascending_gather entries).imp fun h => ne_of_lt h)

/-- What is found under a key is what is given for it last. -/
theorem find?_gather (entries : List (String × Json)) (k : String) :
    find? (gather entries) k = find? entries.reverse k := by
  induction entries using List.reverseRecOn with
  | nil => rfl
  | append_singleton entries entry ih =>
    rw [gather_snoc, find?_set, ih, List.reverse_append, List.reverse_singleton]
    exact (find?_cons entry.1 entry.2 entries.reverse k).symm

theorem find?_eq_none_iff {members : Members} {key : String} :
    find? members key = none ↔ key ∉ members.map Prod.fst := by
  induction members with
  | nil => simp [find?]
  | cons member rest ih =>
    obtain ⟨k, v⟩ := member
    rw [find?_cons, List.map_cons, List.mem_cons]
    by_cases h : key = k
    · simp [h]
    · simp [h, ih]

theorem find?_eq_some_of_mem {members : Members} (hn : (members.map Prod.fst).Nodup)
    {key : String} {value : Json} (h : (key, value) ∈ members) :
    find? members key = some value := by
  induction members with
  | nil => exact absurd h List.not_mem_nil
  | cons member rest ih =>
    obtain ⟨k, v⟩ := member
    rw [List.map_cons, List.nodup_cons] at hn
    rw [find?_cons]
    rcases List.mem_cons.mp h with heq | hrest
    · cases heq
      rw [if_pos rfl]
    · have hne : key ≠ k := fun he => hn.1 (List.mem_map.mpr ⟨(key, value), hrest, he⟩)
      rw [if_neg hne]
      exact ih hn.2 hrest

theorem mem_of_find? {members : Members} {key : String} {value : Json}
    (h : find? members key = some value) : (key, value) ∈ members := by
  induction members with
  | nil => exact nomatch h
  | cons member rest ih =>
    obtain ⟨k, v⟩ := member
    rw [find?_cons] at h
    by_cases hk : key = k
    · rw [if_pos hk] at h
      cases h
      subst hk
      exact List.mem_cons_self
    · rw [if_neg hk] at h
      exact List.mem_cons_of_mem _ (ih h)

/-- Where keys are distinct, gathering changes nothing about what is found. -/
theorem find?_gather_of_nodup {entries : List (String × Json)}
    (hn : (entries.map Prod.fst).Nodup) (k : String) :
    find? (gather entries) k = find? entries k := by
  rw [find?_gather]
  have hn' : (entries.reverse.map Prod.fst).Nodup := by
    rw [List.map_reverse]
    exact List.nodup_reverse.mpr hn
  cases h : find? entries k with
  | none =>
    rw [find?_eq_none_iff] at h ⊢
    rw [List.map_reverse, List.mem_reverse]
    exact h
  | some v => exact find?_eq_some_of_mem hn' (List.mem_reverse.mpr (mem_of_find? h))

end Placement.Json.Members
