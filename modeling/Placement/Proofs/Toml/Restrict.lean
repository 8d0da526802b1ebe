import Placement.Proofs.Toml.RoundTrip
/-
  Documents that state only some keys. `restrict stated v` keeps the tables of `v` and those other
  keys that are stated. It leads to the same under these and nowhere else (`at?_restrict`), and can
  be printed (`printable_restrict`), given that `v` can.
-/
namespace Placement.Toml

mutual

/-- A value with only the stated keys, and all tables. -/
def restrict (stated : List String → Bool) : Toml → Toml
  | .table entries => .table (restrictEntries stated entries)
  | v => v

/-- The entries of a table with only the stated keys, and all tables. -/
def restrictEntries (stated : List String → Bool) : List (String × Toml) → List (String × Toml)
  | [] => []
  | (key, v) :: rest =>
    if v.isTable || stated [key] then
      (key, restrict (fun path => stated (key :: path)) v) :: restrictEntries stated rest
    else restrictEntries stated rest

end

theorem restrict_of_not_isTable {v : Toml} (h : v.isTable = false) (stated : List String → Bool) :
    restrict stated v = v := by
  cases v with
  | table entries => cases h
  | _ => rfl

section Entries

variable (stated : List String → Bool)

theorem sublist_restrictEntries (entries : List (String × Toml)) :
    ((restrictEntries stated entries).map Prod.fst).Sublist (entries.map Prod.fst) := by
  induction entries with
  | nil => exact .slnil
  | cons entry rest ih =>
    obtain ⟨key, v⟩ := entry
    rw [restrictEntries]
    split
    · exact ih.cons_cons key
    · exact ih.cons key

/-- What is found under a key is restricted, if it is a table or stated. -/
theorem lookup_restrictEntries {entries : List (String × Toml)}
    (hkeys : (entries.map Prod.fst).Nodup) (key : String) :
    List.lookup key (restrictEntries stated entries) = (List.lookup key entries).bind fun w =>
      if w.isTable || stated [key] then some (restrict (fun path => stated (key :: path)) w)
      else none := by
  induction entries with
  | nil => rfl
  | cons entry rest ih =>
    obtain ⟨name, v⟩ := entry
    obtain ⟨hnew, hrest⟩ := List.nodup_cons.mp hkeys
    rw [restrictEntries]
    by_cases hkey : key = name
    · subst hkey
      rw [List.lookup_cons_self, Option.bind_some]
      split
      · rw [List.lookup_cons_self]
      · exact lookup_eq_none.mpr fun hmem =>
          hnew ((sublist_restrictEntries stated rest).subset hmem)
    · have hbeq : (key == name) = false := by simpa using hkey
      rw [List.lookup_cons, hbeq]
      dsimp only
      rw [← ih hrest]
      split
      · rw [List.lookup_cons, hbeq]
      · rfl

end Entries

/-- A path leads to the same value, restricted, if that is a table or stated. -/
theorem at?_restrict {v : Toml} (hv : Printable v) (stated : List String → Bool)
    (path : List String) :
    (restrict stated v).at? path = (v.at? path).bind fun w =>
      if w.isTable || path.isEmpty || stated path then
        some (restrict (fun more => stated (path ++ more)) w)
      else none := by
  induction path generalizing v stated with
  | nil =>
    show some (restrict stated v) = if v.isTable || true || stated [] then _ else none
    rw [Bool.or_true, Bool.true_or, if_pos rfl]
    rfl
  | cons key path ih =>
    cases v with
    | table entries =>
      have hlookup := lookup_restrictEntries stated hv.1 key
      rw [restrict]
      cases path with
      | nil =>
        rw [at?_singleton, at?_singleton, hlookup]
        simp only [List.isEmpty_cons, Bool.or_false]
        rfl
      | cons key' path =>
        show (List.lookup key (restrictEntries stated entries)).bind _
          = ((List.lookup key entries).bind _).bind _
        rw [hlookup]
        cases hw : List.lookup key entries with
        | none => rfl
        | some w =>
          rw [Option.bind_some, Option.bind_some]
          by_cases hkept : (w.isTable || stated [key]) = true
          · rw [if_pos hkept, Option.bind_some, ih (hv.2.forall _ (mem_of_lookup hw)).2]
            rfl
          · -- no path goes on from what is left out, for it is no table
            rw [if_neg hkept]
            cases w with
            | table entries => exact absurd rfl hkept
            | _ => rfl
    | _ => rfl

/-! ## Printing -/

mutual

/-- What is left of a printable value is printable. -/
theorem printable_restrict (stated : List String → Bool) (v : Toml) (hv : Printable v) :
    Printable (restrict stated v) := by
  match v with
  | .table entries =>
    exact ⟨hv.1.sublist (sublist_restrictEntries stated entries),
      printable_restrictEntries stated entries hv.2⟩
  | .text _ | .integer _ | .double _ | .flag _ | .moment | .array _ | .tables _ => exact hv

/-- So are the entries that are left. -/
theorem printable_restrictEntries (stated : List String → Bool) (entries : List (String × Toml))
    (hv : PrintableEntries entries) : PrintableEntries (restrictEntries stated entries) := by
  match entries with
  | [] => trivial
  | (key, v) :: rest =>
    obtain ⟨hkey, hv, hrest⟩ := hv
    rw [restrictEntries]
    split
    · exact ⟨hkey, printable_restrict _ v hv, printable_restrictEntries stated rest hrest⟩
    · exact printable_restrictEntries stated rest hrest

end

mutual

/-- No table nests deeper. -/
theorem depth_restrict (stated : List String → Bool) (v : Toml) :
    depth (restrict stated v) ≤ depth v := by
  match v with
  | .table entries =>
    exact Nat.succ_le_succ (depth_restrictEntries stated entries)
  | .text _ | .integer _ | .double _ | .flag _ | .moment | .array _ | .tables _ => exact le_rfl

theorem depth_restrictEntries (stated : List String → Bool) (entries : List (String × Toml)) :
    depthEntries (restrictEntries stated entries) ≤ depthEntries entries := by
  match entries with
  | [] => exact le_rfl
  | (key, v) :: rest =>
    have hrest := depth_restrictEntries stated rest
    rw [restrictEntries, depthEntries]
    split
    · rw [depthEntries]
      exact max_le_max (depth_restrict _ v) hrest
    · exact hrest.trans (le_max_right _ _)

end

end Placement.Toml
