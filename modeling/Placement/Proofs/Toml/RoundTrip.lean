import Placement.Proofs.Toml.Keys
import Placement.Proofs.Toml.Line
/-
  Printed documents read back. `settled`: a table settles into its plain entries and its tables
  behind them, which is the order that it is printed in. `parse?_render`: a printed table is read as
  the settled one, given that it is `Printable` and at most `depthLimit` deep.

  While the reader goes through the lines, the table of the last header stands behind all other
  entries of the table around it, and so does that one in its own. Such a `Spine` of last entries is
  all that headers walk along, so every line only adds to its end (`Adds`).
-/
namespace Placement.Toml

/-! ## Settled tables -/

/-- A table with a header of its own. -/
abbrev headed (entries : List (String × Node)) : Node := .table false false entries

/-- The plain entries of a table. -/
def plainEntries (entries : List (String × Toml)) : List (String × Toml) :=
  entries.filter fun entry => !entry.2.isTable

/-- Plain entries as they are read. -/
def asRead (plain : List (String × Toml)) : List (String × Node) :=
  plain.map fun entry => (entry.1, .value entry.2)

mutual

/-- What a printed value is read back as. -/
def settled : Toml → Node
  | .table entries => headed (asRead (plainEntries entries) ++ settledTables entries)
  | v => .value v

/-- What the printed tables among some entries are read back as. -/
def settledTables : List (String × Toml) → List (String × Node)
  | [] => []
  | (key, v) :: rest =>
    if v.isTable then (key, settled v) :: settledTables rest else settledTables rest

end

mutual

/-- A value that can be printed: keys are bare, no table has one twice, and all else is plain. -/
def Printable : Toml → Prop
  | .table entries => (entries.map Prod.fst).Nodup ∧ PrintableEntries entries
  | v => IsPlain v

/-- All entries of a table can be printed. -/
def PrintableEntries : List (String × Toml) → Prop
  | [] => True
  | (key, v) :: rest => IsBareKey key ∧ Printable v ∧ PrintableEntries rest

end

mutual

/-- How deep the tables of a value nest. -/
def depth : Toml → ℕ
  | .table entries => depthEntries entries + 1
  | _ => 0

/-- How deep the tables among some entries nest. -/
def depthEntries : List (String × Toml) → ℕ
  | [] => 0
  | (_, v) :: rest => max (depth v) (depthEntries rest)

end

theorem map_fst_settledTables (entries : List (String × Toml)) :
    (settledTables entries).map Prod.fst
      = (entries.filter fun entry => entry.2.isTable).map Prod.fst := by
  induction entries with
  | nil => rfl
  | cons entry rest ih =>
    obtain ⟨key, v⟩ := entry
    rw [settledTables, List.filter_cons]
    by_cases h : v.isTable = true
    · rw [if_pos h, if_pos h, List.map_cons, List.map_cons, ih]
    · rw [if_neg h, if_neg h, ih]

theorem map_fst_asRead (plain : List (String × Toml)) :
    (asRead plain).map Prod.fst = plain.map Prod.fst := by
  unfold asRead
  rw [List.map_map]
  rfl

/-- Before its place a key was not there. -/
theorem fresh_of_nodup {done more : List (String × Node)} {key : String} {n : Node}
    (h : ((done ++ [(key, n)] ++ more).map Prod.fst).Nodup) : List.lookup key done = none := by
  rw [List.map_append, List.map_append] at h
  exact lookup_eq_none.mpr fun hmem =>
    List.disjoint_of_nodup_append h.of_append_left hmem List.mem_cons_self

/-- A settled table has the keys that the table has. -/
theorem nodup_settled {entries : List (String × Toml)} (h : (entries.map Prod.fst).Nodup) :
    ((asRead (plainEntries entries) ++ settledTables entries).map Prod.fst).Nodup := by
  rw [List.map_append, map_fst_asRead, map_fst_settledTables, ← List.map_append]
  refine ((List.Perm.map _ ?_).nodup_iff).mpr h
  exact List.perm_append_comm.trans (List.filter_append_perm _ entries)

theorem Printable.isPlain {v : Toml} (h : Printable v) (hplain : v.isTable = false) :
    IsPlain v := by
  cases v with
  | table entries => cases hplain
  | _ => exact h

theorem IsPlain.printable {v : Toml} (h : IsPlain v) : Printable v := by
  cases h with
  | text h => exact .text h
  | integer i => exact .integer i
  | double h => exact .double h
  | flag b => exact .flag b

theorem PrintableEntries.forall {entries : List (String × Toml)} (h : PrintableEntries entries) :
    ∀ entry ∈ entries, IsBareKey entry.1 ∧ Printable entry.2 := by
  induction entries with
  | nil => exact fun _ h => absurd h List.not_mem_nil
  | cons entry rest ih => exact List.forall_mem_cons.mpr ⟨⟨h.1, h.2.1⟩, ih h.2.2⟩

theorem lookup_entriesToToml (entries : List (String × Node)) (key : String) :
    List.lookup key (Node.entriesToToml entries) = (List.lookup key entries).map Node.toToml := by
  induction entries with
  | nil => rfl
  | cons entry rest ih =>
    rw [Node.entriesToToml, List.lookup_cons, List.lookup_cons, ih]
    split <;> rfl

theorem mem_settledTables {entries : List (String × Toml)} {key : String} {v : Toml}
    (hmem : (key, v) ∈ entries) (htable : v.isTable = true) :
    (key, settled v) ∈ settledTables entries := by
  induction entries with
  | nil => exact absurd hmem List.not_mem_nil
  | cons entry rest ih =>
    obtain ⟨key', v'⟩ := entry
    rw [settledTables]
    rcases List.mem_cons.mp hmem with heq | hrest
    · cases heq
      rw [if_pos htable]
      exact List.mem_cons_self
    · split
      · exact List.mem_cons_of_mem _ (ih hrest)
      · exact ih hrest

theorem settled_of_not_isTable {v : Toml} (h : v.isTable = false) : settled v = .value v := by
  cases v with
  | table entries => cases h
  | _ => rfl

/-- An entry stays under its key. -/
theorem lookup_settled {entries : List (String × Toml)} (hkeys : (entries.map Prod.fst).Nodup)
    (key : String) :
    List.lookup key (asRead (plainEntries entries) ++ settledTables entries)
      = (List.lookup key entries).map settled := by
  cases hlookup : List.lookup key entries with
  | none =>
    rw [Option.map_none, lookup_eq_none, List.map_append, map_fst_asRead, map_fst_settledTables,
      ← List.map_append]
    rw [lookup_eq_none] at hlookup
    refine fun hmem => hlookup ?_
    obtain ⟨entry, hentry, rfl⟩ := List.mem_map.mp hmem
    refine List.mem_map.mpr ⟨entry, ?_, rfl⟩
    rcases List.mem_append.mp hentry with h | h <;> exact List.mem_of_mem_filter h
  | some v =>
    refine lookup_of_mem (nodup_settled hkeys) ?_
    have hmem := mem_of_lookup hlookup
    by_cases htable : v.isTable = true
    · exact List.mem_append_right _ (mem_settledTables hmem htable)
    · rw [Bool.not_eq_true] at htable
      rw [settled_of_not_isTable htable]
      refine List.mem_append_left _ (List.mem_map.mpr ⟨(key, v), ?_, rfl⟩)
      exact List.mem_filter.mpr ⟨hmem, by rw [htable]; rfl⟩

/-- A path leads to the same in a settled value. -/
theorem at?_settled {v : Toml} (hv : Printable v) (path : List String) :
    (settled v).toToml.at? path = (v.at? path).map fun w => (settled w).toToml := by
  induction path generalizing v with
  | nil => rfl
  | cons key path ih =>
    cases v with
    | table entries =>
      rw [settled, Node.toToml]
      show (List.lookup key (Node.entriesToToml _)).bind (at? path)
        = ((List.lookup key entries).bind (at? path)).map _
      rw [lookup_entriesToToml, lookup_settled hv.1]
      cases hlookup : List.lookup key entries with
      | none => rfl
      | some w => exact ih (hv.2.forall _ (mem_of_lookup hlookup)).2
    | _ => rfl

/-! ## Spines -/

/-- The tables around the open one from the root on: the entries before it, and its key. -/
abbrev Spine := List (List (String × Node) × String)

namespace Spine

/-- The path of the open table. -/
def path (s : Spine) : List String := s.map Prod.snd

/-- The root, with a node for the open table. -/
def plug : Spine → Node → Node
  | [], n => n
  | (before, key) :: s, n => headed (before ++ [(key, plug s n)])

theorem path_snoc (s : Spine) (before : List (String × Node)) (key : String) :
    path (s ++ [(before, key)]) = s.path ++ [key] := List.map_append

theorem plug_snoc (s : Spine) (before : List (String × Node)) (key : String) (n : Node) :
    plug (s ++ [(before, key)]) n = s.plug (headed (before ++ [(key, n)])) := by
  induction s with
  | nil => rfl
  | cons level s ih =>
    obtain ⟨before', key'⟩ := level
    rw [List.cons_append, plug, ih, plug]

theorem exists_plug_eq (s : Spine) (entries : List (String × Node)) :
    ∃ entries', s.plug (headed entries) = headed entries' := by
  cases s with
  | nil => exact ⟨_, rfl⟩
  | cons level s => exact ⟨_, rfl⟩

/-- Every key is bare, and new where it stands. -/
structure IsOpen (s : Spine) : Prop where
  bare : ∀ level ∈ s, IsBareKey level.2
  fresh : ∀ level ∈ s, List.lookup level.2 level.1 = none

theorem isOpen_nil : IsOpen [] := ⟨by simp, by simp⟩

variable {s : Spine} {done : List (String × Node)} {key : String}

theorem IsOpen.snoc (h : IsOpen s) (hbare : IsBareKey key)
    (hfresh : List.lookup key done = none) : IsOpen (s ++ [(done, key)]) where
  bare := List.forall_mem_append.mpr ⟨h.bare, List.forall_mem_singleton.mpr hbare⟩
  fresh := List.forall_mem_append.mpr ⟨h.fresh, List.forall_mem_singleton.mpr hfresh⟩

theorem IsOpen.bare_path (h : IsOpen s) : ∀ key ∈ s.path, IsBareKey key := by
  intro key hkey
  obtain ⟨level, hlevel, rfl⟩ := List.mem_map.mp hkey
  exact h.bare level hlevel

theorem lookup_snoc (h : List.lookup key done = none) (n : Node) :
    List.lookup key (done ++ [(key, n)]) = some n := by
  rw [List.lookup_append, h, List.lookup_cons_self]
  rfl

theorem replace_snoc (h : List.lookup key done = none) (n n' : Node) :
    Node.replace key n' (done ++ [(key, n)]) = done ++ [(key, n')] := by
  induction done with
  | nil => exact if_pos rfl
  | cons entry rest ih =>
    obtain ⟨name, m⟩ := entry
    rw [lookup_eq_none, List.map_cons, List.mem_cons, not_or] at h
    rw [List.cons_append, Node.replace, if_neg (Ne.symm h.1), ih (lookup_eq_none.mpr h.2)]
    rfl

/-- A change at the end of a spine goes through to it. -/
theorem descend?_plug {β : Type} (h : IsOpen s) (change : Node → Option (β × Node))
    (entries : List (String × Node)) :
    Node.descend? false change s.path (s.plug (headed entries))
      = (change (headed entries)).map fun r => (r.1, s.plug r.2) := by
  induction s with
  | nil => exact Option.map_id'.symm
  | cons level s ih =>
    obtain ⟨before, key⟩ := level
    have hrest := ih ⟨(List.forall_mem_cons.mp h.bare).2, (List.forall_mem_cons.mp h.fresh).2⟩
    have hfresh := (List.forall_mem_cons.mp h.fresh).1
    obtain ⟨entries', hplug⟩ := Spine.exists_plug_eq s entries
    rw [hplug] at hrest
    show Node.descend? false change (key :: path s)
      (headed (before ++ [(key, plug s (headed entries))])) = _
    rw [hplug, Node.descend?, lookup_snoc hfresh]
    dsimp only
    rw [Bool.false_and, if_neg Bool.false_ne_true, hrest]
    cases change (headed entries) with
    | none => rfl
    | some r =>
      show some (r.1, headed (Node.replace key (plug s r.2) _)) = _
      rw [replace_snoc hfresh]
      rfl

end Spine

/-! ## Drafts -/

section Draft

variable {s : Spine} (hs : s.IsOpen) {done : List (String × Node)} {key : String}
  (hfresh : List.lookup key done = none)
include hs hfresh

/-- The open table is put behind the entries before it. -/
theorem close?_plug (current : Node) :
    Draft.close? ⟨s.plug (headed done), current, s.path ++ [key], false⟩
      = some (s.plug (headed (done ++ [(key, current)]))) := by
  unfold Draft.close?
  dsimp only
  rw [List.getLast?_append_of_ne_nil _ (List.cons_ne_nil key []), List.dropLast_concat]
  dsimp only [List.getLast?_singleton]
  rw [Spine.descend?_plug hs]
  dsimp only
  rw [hfresh]
  rfl

/-- A header under a new key opens an empty table. -/
theorem openTable?_plug {d : Draft} (hd : d.close? = some (s.plug (headed done))) :
    d.openTable? (s.path ++ [key])
      = some ⟨s.plug (headed done), headed [], s.path ++ [key], false⟩ := by
  unfold Draft.openTable?
  rw [hd, List.getLast?_append_of_ne_nil _ (List.cons_ne_nil key []), List.dropLast_concat]
  dsimp only [List.getLast?_singleton, Option.bind_eq_bind, Option.bind_some]
  rw [Spine.descend?_plug hs]
  dsimp only
  rw [hfresh]
  rfl

end Draft

/-- A plain entry is added to the open table. -/
theorem insert?_headed {d : Draft} {done : List (String × Node)} {key : String}
    (hd : d.current = headed done) (hfresh : List.lookup key done = none) (v : Toml) :
    d.insert? [] key v = some { d with current := headed (done ++ [(key, .value v)]) } := by
  unfold Draft.insert? Node.insert?
  rw [hd]
  dsimp only
  rw [Node.descend?]
  dsimp only
  rw [hfresh]
  rfl

/-! ## Texts -/

/-- A text that is read does not start with a mark of byte order. -/
theorem dropMark_eq_self {n : ℕ} {d d' : Draft} {cs : List Char}
    (h : readLines? (n + 1) d cs = some d') : dropMark cs = cs := by
  unfold dropMark
  split
  · cases h
  · rfl

/-- Lines of plain entries are added to the open table. -/
theorem reads_entries {plain : List (String × Toml)} {done : List (String × Node)} {d : Draft}
    (hd : d.current = headed done)
    (hplain : ∀ entry ∈ plain, IsBareKey entry.1 ∧ IsPlain entry.2)
    (hkeys : ((done ++ asRead plain).map Prod.fst).Nodup) (rest : List Char) :
    Reads d ((String.join (plain.map fun entry =>
        entry.1 ++ " = " ++ renderPlain entry.2 ++ "\n")).toList ++ rest)
      { d with current := headed (done ++ asRead plain) } rest := by
  induction plain generalizing done d with
  | nil =>
    rw [show asRead [] = [] from rfl, List.append_nil, ← hd]
    exact .refl d rest
  | cons entry plain ih =>
    obtain ⟨⟨hkey, hv⟩, hplain⟩ := List.forall_mem_cons.mp hplain
    have hcons : done ++ asRead (entry :: plain)
        = done ++ [(entry.1, .value entry.2)] ++ asRead plain := by
      rw [List.append_assoc]
      rfl
    rw [hcons] at hkeys ⊢
    rw [List.map_cons, String.join_cons, String.toList_append, List.append_assoc]
    refine (reads_entry hkey hv (insert?_headed hd (fresh_of_nodup hkeys) entry.2) _).trans ?_
    exact ih (d := { d with current := _ }) rfl hplain hkeys

/-- So are the plain lines of a table that was just opened. -/
theorem reads_plainLines {entries : List (String × Toml)} (hv : Printable (.table entries))
    {d : Draft} (hd : d.current = headed []) (rest : List Char) :
    Reads d ((plainLines entries).toList ++ rest)
      { d with current := headed (asRead (plainEntries entries)) } rest := by
  refine reads_entries hd ?_ ?_ rest
  · intro entry hentry
    obtain ⟨hmem, hplain⟩ := List.mem_filter.mp hentry
    obtain ⟨hkey, hv⟩ := hv.2.forall entry hmem
    exact ⟨hkey, hv.isPlain (by simpa using hplain)⟩
  · rw [List.nil_append, map_fst_asRead]
    exact hv.1.sublist (List.filter_sublist.map _)

/-- Read where the table of a spine is open, a text adds nodes to it. -/
def Adds (text : String) (s : Spine) (done nodes : List (String × Node)) : Prop :=
  ∀ (d : Draft) (rest : List Char), d.close? = some (s.plug (headed done)) →
    ∃ d', Reads d (text.toList ++ rest) d' rest ∧
      d'.close? = some (s.plug (headed (done ++ nodes)))

namespace Adds

variable {s : Spine} {done nodes nodes' : List (String × Node)} {text text' : String}

theorem nil : Adds "" s done [] := by
  intro d rest hd
  refine ⟨d, .refl d rest, ?_⟩
  rwa [List.append_nil]

theorem append (h : Adds text s done nodes) (h' : Adds text' s (done ++ nodes) nodes') :
    Adds (text ++ text') s done (nodes ++ nodes') := by
  intro d rest hd
  rw [String.toList_append, List.append_assoc, ← List.append_assoc done]
  obtain ⟨d', hreads, hd'⟩ := h d (text'.toList ++ rest) hd
  obtain ⟨d'', hreads', hd''⟩ := h' d' rest hd'
  exact ⟨d'', hreads.trans hreads', hd''⟩

/-- A header, the plain entries of its table, and the tables in it. -/
theorem of_table (hs : s.IsOpen) (hdepth : s.length + 1 ≤ depthLimit) {key : String}
    (hkey : IsBareKey key) (hfresh : List.lookup key done = none)
    {entries : List (String × Toml)} (hv : Printable (.table entries))
    (htables : Adds (renderTables (s.path ++ [key]) entries) (s ++ [(done, key)])
      (asRead (plainEntries entries)) (settledTables entries)) :
    Adds (header (s.path ++ [key]) ++ renderTable (s.path ++ [key]) (.table entries)) s done
      [(key, settled (.table entries))] := by
  intro d rest hd
  have hpath : ∀ key' ∈ s.path ++ [key], IsBareKey key' :=
    List.forall_mem_append.mpr ⟨hs.bare_path, List.forall_mem_singleton.mpr hkey⟩
  have hlength : (s.path ++ [key]).length ≤ depthLimit := by
    unfold Spine.path
    rwa [List.length_append, List.length_map]
  have hopen := openTable?_plug hs hfresh hd
  rw [renderTable, String.toList_append, String.toList_append, List.append_assoc, List.append_assoc]
  obtain ⟨d', hreads, hd'⟩ := htables
    ⟨s.plug (headed done), headed (asRead (plainEntries entries)), s.path ++ [key], false⟩ rest
    (by rw [close?_plug hs hfresh, Spine.plug_snoc])
  refine ⟨d', ?_, ?_⟩
  · refine (reads_header (List.append_ne_nil_of_right_ne_nil _ (List.cons_ne_nil _ _)) hpath hlength
      hopen _).trans ?_
    exact (reads_plainLines hv rfl _).trans hreads
  · rw [hd', Spine.plug_snoc, settled]

end Adds

mutual

/-- A table is read under its header as what it settles into. -/
theorem adds_renderTable (v : Toml) (hv : Printable v) (htable : v.isTable = true) {s : Spine}
    (hs : s.IsOpen) (hdepth : s.length + depth v ≤ depthLimit) {done : List (String × Node)}
    {key : String} (hkey : IsBareKey key) (hfresh : List.lookup key done = none) :
    Adds (header (s.path ++ [key]) ++ renderTable (s.path ++ [key]) v) s done
      [(key, settled v)] := by
  match v with
  | .table entries =>
    rw [depth] at hdepth
    have hs' := hs.snoc hkey hfresh
    have htables := adds_renderTables entries hv.2 hs' (by
      rw [List.length_append, List.length_singleton]
      omega) (nodup_settled hv.1)
    rw [Spine.path_snoc] at htables
    exact .of_table hs (by omega) hkey hfresh hv htables

/-- So are the tables among some entries, one after the other. -/
theorem adds_renderTables (entries : List (String × Toml)) (hv : PrintableEntries entries)
    {s : Spine} (hs : s.IsOpen) (hdepth : s.length + depthEntries entries ≤ depthLimit)
    {done : List (String × Node)}
    (hkeys : ((done ++ settledTables entries).map Prod.fst).Nodup) :
    Adds (renderTables s.path entries) s done (settledTables entries) := by
  match entries with
  | [] => exact .nil
  | (key, v) :: rest =>
    obtain ⟨hkey, hv, hrest⟩ := hv
    rw [depthEntries] at hdepth
    rw [settledTables] at hkeys ⊢
    rw [renderTables]
    by_cases htable : v.isTable = true
    · rw [if_pos htable] at hkeys ⊢
      rw [if_pos htable, ← List.singleton_append]
      rw [← List.singleton_append, ← List.append_assoc] at hkeys
      exact .append (adds_renderTable v hv htable hs (by omega) hkey (fresh_of_nodup hkeys))
        (adds_renderTables rest hrest hs (by omega) hkeys)
    · rw [if_neg htable] at hkeys ⊢
      rw [if_neg htable, String.empty_append]
      exact adds_renderTables rest hrest hs (by omega) hkeys

end

/-- A printed document is read back as what it settles into. -/
theorem parse?_render {entries : List (String × Toml)} (hv : Printable (.table entries))
    (hdepth : depth (.table entries) ≤ depthLimit) :
    parse? (render (.table entries)) = some (settled (.table entries)).toToml := by
  rw [depth] at hdepth
  have hplain := reads_plainLines hv (d := .start) rfl (renderTables [] entries).toList
  obtain ⟨d, hreads, hclose⟩ := adds_renderTables entries hv.2 Spine.isOpen_nil
    (by rw [List.length_nil]; omega) (nodup_settled hv.1)
    { Draft.start with current := headed (asRead (plainEntries entries)) } [] rfl
  rw [List.append_nil] at hreads
  have hlines := (hplain.trans hreads).readLines?_eq
  rw [← String.toList_append] at hlines
  unfold parse?
  have htext : render (.table entries) = plainLines entries ++ renderTables [] entries := by
    rw [render, renderTable]
  rw [htext]
  dsimp only
  rw [dropMark_eq_self hlines, hlines]
  show d.close?.map Node.toToml = _
  rw [hclose, Option.map_some, settled]
  rfl

end Placement.Toml
