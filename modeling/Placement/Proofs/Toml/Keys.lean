import Mathlib.Data.List.Nodup
import Placement.Toml.Reader
/-
  The keys of a document. `at? path v`: what a path of keys leads to through the tables of `v`.
  `distinct_of_parse?`: the reader gives no table a key twice (`Distinct`), whether the table is
  written under a header, opened by keys in dots or inline. Whatever is added to a table under
  construction was looked up before (`Draft.Distinct`), and every step of the reader keeps that.
-/
namespace Placement.Toml

/-! ## Paths -/

/-- What a path of keys leads to. -/
def at? : List String → Toml → Option Toml
  | [], v => some v
  | key :: path, .table entries => (List.lookup key entries).bind (at? path)
  | _ :: _, _ => none

/-- Whether a path of keys leads anywhere. -/
def mentions (v : Toml) (path : List String) : Bool := (v.at? path).isSome

section Lookup

variable {α : Type} {entries : List (String × α)} {key : String} {a : α}

theorem mem_of_lookup (h : List.lookup key entries = some a) : (key, a) ∈ entries := by
  obtain ⟨before, after, rfl, -⟩ := List.lookup_eq_some_iff.mp h
  exact List.mem_append_right _ List.mem_cons_self

theorem lookup_of_mem (h : (entries.map Prod.fst).Nodup) (hmem : (key, a) ∈ entries) :
    List.lookup key entries = some a := by
  induction entries with
  | nil => exact absurd hmem List.not_mem_nil
  | cons entry rest ih =>
    obtain ⟨name, b⟩ := entry
    rw [List.map_cons, List.nodup_cons] at h
    rcases List.mem_cons.mp hmem with heq | hrest
    · cases heq
      exact List.lookup_cons_self
    · have hne : key ≠ name := fun heq => h.1 (List.mem_map.mpr ⟨_, hrest, heq⟩)
      have hbeq : (key == name) = false := by simpa using hne
      simpa only [List.lookup_cons, hbeq] using ih h.2 hrest

theorem lookup_eq_none : List.lookup key entries = none ↔ key ∉ entries.map Prod.fst := by
  rw [List.lookup_eq_none_iff, List.mem_map]
  constructor
  · rintro h ⟨entry, hentry, rfl⟩
    simpa using h entry hentry
  · intro h entry hentry
    simpa using fun heq => h ⟨entry, hentry, heq.symm⟩

end Lookup

section At

variable {entries : List (String × Toml)} {key : String} {w : Toml}

theorem at?_singleton : (table entries).at? [key] = List.lookup key entries := by
  show (List.lookup key entries).bind (at? []) = _
  cases List.lookup key entries <;> rfl

theorem at?_cons (h : List.lookup key entries = some w) (path : List String) :
    (table entries).at? (key :: path) = w.at? path := by
  show (List.lookup key entries).bind (at? path) = _
  rw [h]
  rfl

end At

/-! ## Distinct keys -/

/-- No table has a key twice. -/
inductive Distinct : Toml → Prop
  | text (s : String) : Distinct (.text s)
  | integer (i : Int64) : Distinct (.integer i)
  | double (x : Float) : Distinct (.double x)
  | flag (b : Bool) : Distinct (.flag b)
  | moment : Distinct .moment
  | array {items : List Toml} (h : ∀ v ∈ items, Distinct v) : Distinct (.array items)
  | tables {elements : List Toml} (h : ∀ v ∈ elements, Distinct v) : Distinct (.tables elements)
  | table {entries : List (String × Toml)} (hkeys : (entries.map Prod.fst).Nodup)
    (h : ∀ entry ∈ entries, Distinct entry.2) : Distinct (.table entries)

namespace Distinct

variable {entries : List (String × Toml)}

theorem nodup (h : (Toml.table entries).Distinct) : (entries.map Prod.fst).Nodup := by
  cases h with
  | table hkeys _ => exact hkeys

theorem of_lookup (h : (Toml.table entries).Distinct) {key : String} {w : Toml}
    (hlookup : List.lookup key entries = some w) : w.Distinct := by
  cases h with
  | table _ h => exact h _ (mem_of_lookup hlookup)

end Distinct

namespace Node

/-- No table under construction has a key twice. -/
inductive Distinct : Node → Prop
  | value {v : Toml} (h : v.Distinct) : Distinct (.value v)
  | table {implicit dotted : Bool} {entries : List (String × Node)}
    (hkeys : (entries.map Prod.fst).Nodup) (h : ∀ entry ∈ entries, Distinct entry.2) :
    Distinct (.table implicit dotted entries)
  | tables {elements : List Node} (h : ∀ n ∈ elements, Distinct n) : Distinct (.tables elements)

theorem entriesToToml_eq (entries : List (String × Node)) :
    entriesToToml entries = entries.map fun entry => (entry.1, entry.2.toToml) := by
  induction entries with
  | nil => rfl
  | cons entry rest ih =>
    rw [entriesToToml, ih]
    rfl

theorem elementsToToml_eq (elements : List Node) :
    elementsToToml elements = elements.map toToml := by
  induction elements with
  | nil => rfl
  | cons n rest ih =>
    rw [elementsToToml, ih]
    rfl

theorem Distinct.toToml {n : Node} (h : n.Distinct) : n.toToml.Distinct := by
  induction h with
  | value h =>
    rw [Node.toToml]
    exact h
  | table hkeys _ ih =>
    rw [Node.toToml, entriesToToml_eq]
    refine .table ?_ ?_
    · rwa [List.map_map]
    · intro entry hentry
      obtain ⟨child, hchild, rfl⟩ := List.mem_map.mp hentry
      exact ih child hchild
  | tables _ ih =>
    rw [Node.toToml, elementsToToml_eq]
    refine .tables fun v hv => ?_
    obtain ⟨n, hn, rfl⟩ := List.mem_map.mp hv
    exact ih n hn

section Table

variable {implicit dotted : Bool} {entries : List (String × Node)} {key : String} {n : Node}

theorem Distinct.of_lookup (h : (Node.table implicit dotted entries).Distinct)
    (hlookup : List.lookup key entries = some n) : n.Distinct := by
  cases h with
  | table _ h => exact h _ (mem_of_lookup hlookup)

theorem Distinct.snoc (h : (Node.table implicit dotted entries).Distinct) (hn : n.Distinct)
    (hlookup : List.lookup key entries = none) :
    (Node.table implicit dotted (entries ++ [(key, n)])).Distinct := by
  cases h with
  | table hkeys h =>
    refine .table ?_ ?_
    · rw [List.map_append, List.map_singleton, List.nodup_append_comm]
      exact List.nodup_cons.mpr ⟨lookup_eq_none.mp hlookup, hkeys⟩
    · intro entry hentry
      rcases List.mem_append.mp hentry with hold | hnew
      · exact h entry hold
      · rw [List.mem_singleton.mp hnew]
        exact hn

theorem map_fst_replace (entries : List (String × Node)) :
    (replace key n entries).map Prod.fst = entries.map Prod.fst := by
  induction entries with
  | nil => rfl
  | cons entry rest ih =>
    rw [replace]
    split
    · rfl
    · rw [List.map_cons, ih, List.map_cons]

theorem mem_replace {entry : String × Node} (h : entry ∈ replace key n entries) :
    entry ∈ entries ∨ entry.2 = n := by
  induction entries with
  | nil => exact absurd h List.not_mem_nil
  | cons first rest ih =>
    rw [replace] at h
    split at h
    · rcases List.mem_cons.mp h with rfl | hrest
      · exact .inr rfl
      · exact .inl (List.mem_cons_of_mem _ hrest)
    · rcases List.mem_cons.mp h with rfl | hrest
      · exact .inl List.mem_cons_self
      · exact (ih hrest).imp_left (List.mem_cons_of_mem _)

theorem Distinct.replace (h : (Node.table implicit dotted entries).Distinct) (hn : n.Distinct) :
    (Node.table implicit dotted (replace key n entries)).Distinct := by
  cases h with
  | table hkeys h =>
    refine .table ?_ ?_
    · rwa [map_fst_replace]
    · intro entry hentry
      rcases mem_replace hentry with hold | hnew
      · exact h entry hold
      · rw [hnew]
        exact hn

end Table

theorem distinct_empty {implicit dotted : Bool} : (Node.table implicit dotted []).Distinct :=
  .table List.nodup_nil fun _ h => absurd h List.not_mem_nil

theorem Distinct.replaceLast {elements : List Node} (h : (Node.tables elements).Distinct) {n : Node}
    (hn : n.Distinct) : (Node.tables (elements.dropLast ++ [n])).Distinct := by
  cases h with
  | tables h =>
    refine .tables fun n' hn' => ?_
    rcases List.mem_append.mp hn' with hold | hnew
    · exact h n' (List.dropLast_subset _ hold)
    · rw [List.mem_singleton.mp hnew]
      exact hn

/-- A change of the table at the end of a path that keeps keys distinct does so for all tables. -/
theorem Distinct.descend? {β : Type} {P : β → Prop} {dotted : Bool}
    {change : Node → Option (β × Node)}
    (hchange : ∀ n b n', n.Distinct → change n = some (b, n') → P b ∧ n'.Distinct)
    (path : List String) {n : Node} (h : n.Distinct) {b : β} {n' : Node}
    (hdescend : Node.descend? dotted change path n = some (b, n')) : P b ∧ n'.Distinct := by
  induction path, n using Node.descend?.induct dotted generalizing b n' with
  | case1 n =>
    rw [Node.descend?] at hdescend
    exact hchange n b n' h hdescend
  | case2 key path implicit isDotted entries hlookup ih =>
    rw [Node.descend?, hlookup] at hdescend
    obtain ⟨⟨b', child⟩, hchild, heq⟩ := Option.bind_eq_some_iff.mp hdescend
    cases heq
    obtain ⟨hb, hdistinct⟩ := ih distinct_empty hchild
    exact ⟨hb, h.snoc hdistinct hlookup⟩
  | case3 key path implicit isDotted entries v hlookup =>
    rw [Node.descend?, hlookup] at hdescend
    cases hdescend
  | case4 key path implicit isDotted entries elements hlookup hlast =>
    rw [Node.descend?, hlookup] at hdescend
    simp only [hlast, reduceCtorEq] at hdescend
  | case5 key path implicit isDotted entries elements hlookup last hlast ih =>
    rw [Node.descend?, hlookup] at hdescend
    simp only [hlast] at hdescend
    obtain ⟨⟨b', child⟩, hchild, heq⟩ := Option.bind_eq_some_iff.mp hdescend
    cases heq
    have helements := h.of_lookup hlookup
    have hdistinct : last.Distinct := by
      cases helements with
      | tables helements => exact helements last (List.mem_of_getLast? hlast)
    obtain ⟨hb, hdistinct⟩ := ih hdistinct hchild
    exact ⟨hb, h.replace (helements.replaceLast hdistinct)⟩
  | case6 key path implicit isDotted entries childImplicit childDotted childEntries hlookup hown =>
    rw [Node.descend?, hlookup] at hdescend
    simp only [hown, if_true, reduceCtorEq] at hdescend
  | case7 key path implicit isDotted entries childImplicit childDotted childEntries hlookup hown
      ih =>
    rw [Node.descend?, hlookup] at hdescend
    simp only [hown, Bool.false_eq_true, if_false] at hdescend
    obtain ⟨⟨b', child⟩, hchild, heq⟩ := Option.bind_eq_some_iff.mp hdescend
    cases heq
    obtain ⟨hb, hdistinct⟩ := ih (h.of_lookup hlookup) hchild
    exact ⟨hb, h.replace hdistinct⟩
  | case8 key path n hn =>
    cases n with
    | value v => cases hdescend
    | table implicit isDotted entries => exact absurd rfl (hn implicit isDotted entries)
    | tables elements => cases hdescend

theorem Distinct.insert? {path : List String} {key : String} {v : Toml} {n n' : Node}
    (h : n.Distinct) (hv : v.Distinct) (hinsert : n.insert? path key v = some n') :
    n'.Distinct := by
  unfold Node.insert? at hinsert
  obtain ⟨⟨b, n''⟩, hdescend, rfl⟩ := Option.map_eq_some_iff.mp hinsert
  refine (h.descend? (P := fun _ => True) ?_ path hdescend).2
  intro n b n' hn hadd
  cases n with
  | value v => cases hadd
  | tables elements => cases hadd
  | table implicit isDotted entries =>
    dsimp only at hadd
    split at hadd
    · cases hadd
    · rename_i hfree
      cases hadd
      rw [Bool.or_eq_true, not_or, Option.not_isSome_iff_eq_none] at hfree
      exact ⟨trivial, hn.snoc (.value hv) hfree.2⟩

end Node

/-! ## Values -/

theorem distinct_of_integer? {negative : Bool} {m : ℕ} {v : Toml}
    (h : integer? negative m = some v) : v.Distinct := by
  unfold integer? at h
  obtain ⟨-, heq⟩ := Option.ite_none_right_eq_some.mp h
  cases heq
  exact .integer _

theorem distinct_of_decimal? {negative : Bool} {cs rest : Rest} {v : Toml}
    (h : decimal? negative cs = some (v, rest)) : v.Distinct := by
  unfold decimal? at h
  obtain ⟨⟨whole, rest₁⟩, -, h⟩ := Option.bind_eq_some_iff.mp h
  obtain ⟨⟨fraction, rest₂⟩, -, h⟩ := Option.bind_eq_some_iff.mp h
  obtain ⟨⟨exponent, rest₃⟩, -, h⟩ := Option.bind_eq_some_iff.mp h
  dsimp only at h
  split at h
  · obtain ⟨v', hv', h⟩ := Option.bind_eq_some_iff.mp h
    cases h
    exact distinct_of_integer? hv'
  · split at h <;> cases h
    exact .double _

theorem distinct_of_based? {base : ℕ} {isDigit : Char → Bool} {cs rest : Rest} {v : Toml}
    (h : based? base isDigit cs = some (v, rest)) : v.Distinct := by
  unfold based? at h
  obtain ⟨⟨digits, rest₁⟩, -, h⟩ := Option.bind_eq_some_iff.mp h
  obtain ⟨v', hv', h⟩ := Option.bind_eq_some_iff.mp h
  cases h
  exact distinct_of_integer? hv'

theorem distinct_of_number? {cs rest : Rest} {v : Toml} (h : number? cs = some (v, rest)) :
    v.Distinct := by
  unfold number? at h
  split at h
  · exact distinct_of_based? h
  · exact distinct_of_based? h
  · exact distinct_of_based? h
  · unfold signed? at h
    split at h
    · cases h
      exact .double _
    · cases h
      exact .double _
    · exact distinct_of_decimal? h

theorem distinct_of_numberOrMoment? {cs rest : Rest} {v : Toml}
    (h : numberOrMoment? cs = some (v, rest)) : v.Distinct := by
  unfold numberOrMoment? at h
  split at h
  · obtain ⟨rest', -, heq⟩ := Option.map_eq_some_iff.mp h
    cases heq
    exact .moment
  · obtain ⟨rest', -, heq⟩ := Option.map_eq_some_iff.mp h
    cases heq
    exact .moment
  · exact distinct_of_number? h

theorem distinct_of_scalar? {cs rest : Rest} {v : Toml} (h : scalar? cs = some (v, rest)) :
    v.Distinct := by
  unfold scalar? at h
  split at h
  · obtain ⟨r, -, heq⟩ := Option.map_eq_some_iff.mp h
    cases heq
    exact .text _
  · obtain ⟨r, -, heq⟩ := Option.map_eq_some_iff.mp h
    cases heq
    exact .text _
  · cases h
    exact .flag _
  · cases h
    exact .flag _
  · exact distinct_of_numberOrMoment? h

theorem distinct_of_insertKey? {parts : List String} {v : Toml} {n n' : Node} (hn : n.Distinct)
    (hv : v.Distinct) (h : insertKey? parts v n = some n') : n'.Distinct := by
  unfold insertKey? at h
  obtain ⟨key, -, h⟩ := Option.bind_eq_some_iff.mp h
  exact hn.insert? hv h

section Containers

variable {read : Rest → Option (Toml × Rest)}
  (hread : ∀ cs v rest, read cs = some (v, rest) → v.Distinct)
include hread

theorem distinct_of_items? {n : ℕ} {cs rest : Rest} {items : List Toml}
    (h : items? read n cs = some (items, rest)) : ∀ v ∈ items, v.Distinct := by
  induction n generalizing cs items with
  | zero => cases h
  | succ n ih =>
    rw [items?] at h
    obtain ⟨cs₁, -, h⟩ := Option.bind_eq_some_iff.mp h
    split at h
    · cases h
      exact fun v hv => absurd hv List.not_mem_nil
    obtain ⟨⟨item, rest₁⟩, hitem, h⟩ := Option.bind_eq_some_iff.mp h
    obtain ⟨rest₂, -, h⟩ := Option.bind_eq_some_iff.mp h
    split at h
    · obtain ⟨⟨items', rest₃⟩, hitems, h⟩ := Option.bind_eq_some_iff.mp h
      cases h
      exact List.forall_mem_cons.mpr ⟨hread _ _ _ hitem, ih hitems⟩
    · cases h
      exact List.forall_mem_singleton.mpr (hread _ _ _ hitem)
    · cases h

theorem distinct_of_pairs? {n : ℕ} {opened filled : Node} {cs rest : Rest} (hn : opened.Distinct)
    (h : pairs? read n opened cs = some (filled, rest)) : filled.Distinct := by
  induction n generalizing opened cs with
  | zero => cases h
  | succ n ih =>
    rw [pairs?] at h
    obtain ⟨⟨parts, rest₁⟩, -, h⟩ := Option.bind_eq_some_iff.mp h
    dsimp only at h
    split at h
    · obtain ⟨⟨v, rest₂⟩, hv, h⟩ := Option.bind_eq_some_iff.mp h
      obtain ⟨n', hinsert, h⟩ := Option.bind_eq_some_iff.mp h
      have hn' := distinct_of_insertKey? hn (hread _ _ _ hv) hinsert
      split at h
      · exact ih hn' h
      · cases h
        exact hn'
      · cases h
    · cases h

end Containers

theorem distinct_of_value? {depth : ℕ} {cs rest : Rest} {v : Toml}
    (h : value? depth cs = some (v, rest)) : v.Distinct := by
  induction depth generalizing cs rest v with
  | zero => exact distinct_of_scalar? h
  | succ depth ih =>
    unfold value? at h
    split at h
    · obtain ⟨⟨items, rest'⟩, hitems, heq⟩ := Option.map_eq_some_iff.mp h
      cases heq
      exact .array (distinct_of_items? (fun _ _ _ => ih) hitems)
    · split at h
      · cases h
        exact .table List.nodup_nil fun _ h => absurd h List.not_mem_nil
      · obtain ⟨⟨n, rest'⟩, hpairs, heq⟩ := Option.map_eq_some_iff.mp h
        cases heq
        exact (distinct_of_pairs? (fun _ _ _ => ih) Node.distinct_empty hpairs).toToml
    · exact distinct_of_scalar? h

/-! ## Lines -/

namespace Draft

/-- No table that was closed or is open has a key twice. -/
structure Distinct (d : Draft) : Prop where
  root : d.root.Distinct
  current : d.current.Distinct

variable {d d' : Draft} {path : List String}

theorem Distinct.close? (h : d.Distinct) {n : Node} (hclose : d.close? = some n) :
    n.Distinct := by
  unfold Draft.close? at hclose
  split at hclose
  · cases hclose
    exact h.current
  · rename_i key hkey
    obtain ⟨⟨b, n'⟩, hdescend, rfl⟩ := Option.map_eq_some_iff.mp hclose
    refine (h.root.descend? (P := fun _ => True) ?_ _ hdescend).2
    intro n b n' hn hplace
    cases n with
    | value v => cases hplace
    | tables elements => cases hplace
    | table implicit isDotted entries =>
      dsimp only at hplace
      split at hplace
      · cases hplace
        exact ⟨trivial, hn.snoc h.current ‹_›⟩
      · cases hplace
        exact ⟨trivial, hn.snoc (.tables (List.forall_mem_singleton.mpr h.current)) ‹_›⟩
      · rename_i elements hlookup _
        cases hplace
        refine ⟨trivial, hn.replace (.tables fun n hn' => ?_)⟩
        have helements := hn.of_lookup hlookup
        cases helements with
        | tables helements =>
          rcases List.mem_append.mp hn' with hold | hnew
          · exact helements n hold
          · rw [List.mem_singleton.mp hnew]
            exact h.current
      · cases hplace

theorem Distinct.openTable? (h : d.Distinct) (hopen : d.openTable? path = some d') :
    d'.Distinct := by
  unfold Draft.openTable? at hopen
  obtain ⟨root, hroot, hopen⟩ := Option.bind_eq_some_iff.mp hopen
  obtain ⟨key, -, hopen⟩ := Option.bind_eq_some_iff.mp hopen
  obtain ⟨⟨current, root'⟩, hdescend, hopen⟩ := Option.bind_eq_some_iff.mp hopen
  cases hopen
  obtain ⟨hcurrent, hroot'⟩ := (h.close? hroot).descend? (P := Node.Distinct) (by
    intro n b n' hn htake
    cases n with
    | value v => cases htake
    | tables elements => cases htake
    | table implicit isDotted entries =>
      dsimp only at htake
      split at htake
      · cases htake
        exact ⟨Node.distinct_empty, hn⟩
      · rename_i inner hlookup
        cases htake
        refine ⟨?_, ?_⟩
        · have hinner := hn.of_lookup hlookup
          cases hinner with
          | table hkeys h => exact .table hkeys h
        · cases hn with
          | table hkeys h =>
            refine .table ?_ fun entry hentry => h entry (List.mem_of_mem_filter hentry)
            exact hkeys.sublist (List.filter_sublist.map _)
      · cases htake) _ hdescend
  exact ⟨hroot', hcurrent⟩

theorem Distinct.openElement? (h : d.Distinct) (hopen : d.openElement? path = some d') :
    d'.Distinct := by
  unfold Draft.openElement? at hopen
  obtain ⟨root, hroot, hopen⟩ := Option.bind_eq_some_iff.mp hopen
  obtain ⟨key, -, hopen⟩ := Option.bind_eq_some_iff.mp hopen
  obtain ⟨⟨b, root'⟩, hdescend, hopen⟩ := Option.bind_eq_some_iff.mp hopen
  cases hopen
  refine ⟨((h.close? hroot).descend? (P := fun _ => True) ?_ _ hdescend).2, Node.distinct_empty⟩
  intro n b n' hn hreserve
  cases n with
  | value v => cases hreserve
  | tables elements => cases hreserve
  | table implicit isDotted entries =>
    dsimp only at hreserve
    split at hreserve
    · cases hreserve
      exact ⟨trivial, hn.snoc (.tables fun _ h => absurd h List.not_mem_nil) ‹_›⟩
    · rename_i elements hlookup
      cases hreserve
      exact ⟨trivial, hn.replace (hn.of_lookup hlookup)⟩
    · cases hreserve

theorem Distinct.insert? (h : d.Distinct) {key : String} {v : Toml} (hv : v.Distinct)
    (hinsert : d.insert? path key v = some d') : d'.Distinct := by
  unfold Draft.insert? at hinsert
  obtain ⟨current, hcurrent, hinsert⟩ := Option.bind_eq_some_iff.mp hinsert
  cases hinsert
  exact ⟨h.root, h.current.insert? hv hcurrent⟩

theorem distinct_start : start.Distinct := ⟨Node.distinct_empty, Node.distinct_empty⟩

end Draft

theorem distinct_of_keyValue? {d d' : Draft} {cs rest : Rest} (hd : d.Distinct)
    (h : keyValue? d cs = some (d', rest)) : d'.Distinct := by
  unfold keyValue? at h
  obtain ⟨⟨parts, rest₁⟩, -, h⟩ := Option.bind_eq_some_iff.mp h
  dsimp only at h
  split at h
  · obtain ⟨⟨v, rest₂⟩, hv, h⟩ := Option.bind_eq_some_iff.mp h
    obtain ⟨rest₃, -, h⟩ := Option.bind_eq_some_iff.mp h
    obtain ⟨key, -, h⟩ := Option.bind_eq_some_iff.mp h
    obtain ⟨d'', hinsert, h⟩ := Option.bind_eq_some_iff.mp h
    cases h
    exact hd.insert? (distinct_of_value? hv) hinsert
  · cases h

theorem distinct_of_header? {d d' : Draft} {cs rest : Rest} (hd : d.Distinct)
    (h : header? d cs = some (d', rest)) : d'.Distinct := by
  unfold header? at h
  split at h
  · obtain ⟨⟨path, rest₁⟩, -, h⟩ := Option.bind_eq_some_iff.mp h
    dsimp only at h
    split at h
    · obtain ⟨rest₂, -, h⟩ := Option.bind_eq_some_iff.mp h
      obtain ⟨d'', hopen, h⟩ := Option.bind_eq_some_iff.mp h
      cases h
      exact hd.openElement? hopen
    · cases h
  · obtain ⟨⟨path, rest₁⟩, -, h⟩ := Option.bind_eq_some_iff.mp h
    dsimp only at h
    split at h
    · obtain ⟨rest₂, -, h⟩ := Option.bind_eq_some_iff.mp h
      obtain ⟨d'', hopen, h⟩ := Option.bind_eq_some_iff.mp h
      cases h
      exact hd.openTable? hopen
    · cases h
  · cases h

theorem distinct_of_readLines? {n : ℕ} {d d' : Draft} {cs : Rest} (hd : d.Distinct)
    (h : readLines? n d cs = some d') : d'.Distinct := by
  induction n generalizing d cs with
  | zero =>
    rw [readLines?] at h
    split at h <;> cases h
    exact hd
  | succ n ih =>
    rw [readLines?] at h
    split at h
    · cases h
      exact hd
    split at h
    · obtain ⟨⟨d₁, rest⟩, hheader, h⟩ := Option.bind_eq_some_iff.mp h
      exact ih (distinct_of_header? hd hheader) h
    · obtain ⟨rest, -, h⟩ := Option.bind_eq_some_iff.mp h
      exact ih hd h
    · obtain ⟨rest, -, h⟩ := Option.bind_eq_some_iff.mp h
      exact ih hd h
    · obtain ⟨rest, -, h⟩ := Option.bind_eq_some_iff.mp h
      exact ih hd h
    · obtain ⟨⟨d₁, rest⟩, hline, h⟩ := Option.bind_eq_some_iff.mp h
      exact ih (distinct_of_keyValue? hd hline) h

/-- No table of a document has a key twice. -/
theorem distinct_of_parse? {s : String} {v : Toml} (h : parse? s = some v) : v.Distinct := by
  unfold parse? at h
  obtain ⟨d, hd, h⟩ := Option.bind_eq_some_iff.mp h
  obtain ⟨n, hclose, rfl⟩ := Option.map_eq_some_iff.mp h
  exact ((distinct_of_readLines? Draft.distinct_start hd).close? hclose).toToml

end Placement.Toml
