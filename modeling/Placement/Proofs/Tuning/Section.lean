import Mathlib.Logic.Function.Basic
import Placement.Proofs.Except
import Placement.Proofs.Toml.Keys
import Placement.Tuning.Form
/-
  How a section of a document is read over its defaults. `Form.read_overlay`: a table is read as the
  overlay of all that it mentions, in whatever order, given that every known key that is set adds
  itself to what is stated (`Key.Adds`) and that no other key counts. `Form.read_keeps`: a property
  of the section that every key keeps holds of what is read.
-/
namespace Placement

/-! ## Values of keys -/

/-- The value of a key. -/
inductive Leaf where
  | name (s : String)
  | flag (b : Bool)
  | number (x : Float)
  | count (n : ℕ)

/-- How a value may be stated. An integer states the number that is nearest to it. -/
inductive Leaf.StatedBy : Leaf → Toml → Prop
  | name (s : String) : (name s).StatedBy (.text s)
  | flag (b : Bool) : (flag b).StatedBy (.flag b)
  | number (x : Float) : (number x).StatedBy (.double x)
  | whole (i : Int64) : (number (Json.nearestDouble i)).StatedBy (.integer i)
  | count {i : Int64} {n : ℕ} (h : i.toInt = n) : (count n).StatedBy (.integer i)

/-- No table states a value. -/
theorem Leaf.StatedBy.isTable_eq_false {leaf : Leaf} {w : Toml} (h : leaf.StatedBy w) :
    w.isTable = false := by
  cases h <;> rfl

namespace Leaf

/-- Whether a value is stated. -/
def isStatedBy : Leaf → Toml → Bool
  | name s, .text s' => s = s'
  | flag b, .flag b' => b = b'
  | number x, .double x' => x = x'
  | number x, .integer i => Json.nearestDouble i = x
  | count n, .integer i => i.toInt = n
  | _, _ => false

theorem isStatedBy_iff {leaf : Leaf} {w : Toml} :
    leaf.isStatedBy w = true ↔ leaf.StatedBy w := by
  constructor
  · intro h
    unfold isStatedBy at h
    split at h
    · cases of_decide_eq_true h
      exact .name _
    · cases of_decide_eq_true h
      exact .flag _
    · cases of_decide_eq_true h
      exact .number _
    · cases of_decide_eq_true h
      exact .whole _
    · exact .count (of_decide_eq_true h)
    · cases h
  · rintro (_ | _ | _ | _ | h)
    · exact decide_eq_true rfl
    · exact decide_eq_true rfl
    · exact decide_eq_true rfl
    · exact decide_eq_true rfl
    · exact decide_eq_true h

instance (leaf : Leaf) (w : Toml) : Decidable (leaf.StatedBy w) :=
  decidable_of_iff _ isStatedBy_iff

/-- How a value is written. -/
def written : Leaf → Toml
  | name s => .text s
  | flag b => .flag b
  | number x => .double x
  | count n => .integer (Int64.ofInt n)

/-- A count that fits a signed word of 64 bits. -/
def Fits : Leaf → Prop
  | count n => n < 0x8000000000000000
  | _ => True

/-- A value that fits is stated by what is written for it. -/
theorem Fits.statedBy_written {leaf : Leaf} (h : leaf.Fits) : leaf.StatedBy leaf.written := by
  cases leaf with
  | name s => exact .name s
  | flag b => exact .flag b
  | number x => exact .number x
  | count n =>
    have hlt : (n : Int) < 0x8000000000000000 := Int.ofNat_lt.mpr h
    exact .count (Int64.toInt_ofInt_of_le (by omega) hlt)

end Leaf

namespace Codec

theorem read_number {x : Float} (w : Toml) (h : (Leaf.number x).StatedBy w) :
    double.read w = .ok x := by
  cases h <;> rfl

theorem read_flag {b : Bool} (w : Toml) (h : (Leaf.flag b).StatedBy w) : flag.read w = .ok b := by
  cases h
  rfl

theorem read_count32 {n : UInt32} (w : Toml) (h : (Leaf.count n.toNat).StatedBy w) :
    count32.read w = .ok n := by
  cases h with
  | @count i _ hi =>
    have hlt := n.toNat_lt
    show (if 0 ≤ i.toInt ∧ i.toInt < UInt32.size then Except.ok i.toInt.toNat.toUInt32
      else .error (DataFault.outside i "u32")) = .ok n
    rw [hi, if_pos ⟨by omega, by exact_mod_cast hlt⟩, Int.toNat_natCast]
    exact congrArg _ (UInt32.ofNat_toNat)

theorem read_count64 {n : UInt64} (w : Toml) (h : (Leaf.count n.toNat).StatedBy w) :
    count64.read w = .ok n := by
  cases h with
  | @count i _ hi =>
    show (if 0 ≤ i.toInt then Except.ok i.toInt.toNat.toUInt64
      else .error (DataFault.outside i "u64")) = .ok n
    rw [hi, if_pos (by omega), Int.toNat_natCast]
    exact congrArg _ (UInt64.ofNat_toNat)

/-- A count of 64 bits is read from a signed word. -/
theorem fits_of_count64 {w : Toml} {n : UInt64} (h : count64.read w = .ok n) :
    (Leaf.count n.toNat).Fits := by
  cases w with
  | integer i =>
    have hlt := i.toInt_lt
    change (if 0 ≤ i.toInt then Except.ok i.toInt.toNat.toUInt64
      else .error (DataFault.outside i "u64")) = .ok n at h
    split at h
    · cases h
      show (UInt64.ofNat i.toInt.toNat).toNat < 0x8000000000000000
      rw [UInt64.toNat_ofNat']
      exact Nat.lt_of_le_of_lt (Nat.mod_le _ _) (by omega)
    · cases h
  | _ => cases h

end Codec

/-- The keys of a section, by their paths, and their values. -/
abbrev Leaves := List (List String × Leaf)

namespace Leaves

/-- The keys of a section under its name. -/
def under (key : String) (leaves : Leaves) : Leaves :=
  leaves.map fun leaf => (key :: leaf.1, leaf.2)

/-- Whatever is found under one of the keys states its value. -/
def StatedIn (leaves : Leaves) (v : Toml) : Prop :=
  ∀ leaf ∈ leaves, ∀ w, v.at? leaf.1 = some w → leaf.2.StatedBy w

instance (leaves : Leaves) (v : Toml) : Decidable (leaves.StatedIn v) :=
  inferInstanceAs (Decidable (∀ leaf ∈ leaves, ∀ w ∈ v.at? leaf.1, leaf.2.StatedBy w))

theorem statedIn_append {leaves leaves' : Leaves} {v : Toml} :
    (leaves ++ leaves').StatedIn v ↔ leaves.StatedIn v ∧ leaves'.StatedIn v :=
  List.forall_mem_append

theorem StatedIn.of_under {leaves : Leaves} {key : String} {entries : List (String × Toml)}
    (h : (leaves.under key).StatedIn (.table entries)) {w : Toml}
    (hlookup : List.lookup key entries = some w) : leaves.StatedIn w := by
  intro leaf hleaf u hu
  refine h (key :: leaf.1, leaf.2) (List.mem_map.mpr ⟨leaf, hleaf, rfl⟩) u ?_
  rwa [Toml.at?_cons hlookup]

end Leaves

/-- Where there is anything at some paths, there are tables. -/
def Toml.TablesAt (paths : List (List String)) (v : Toml) : Prop :=
  ∀ path ∈ paths, ∀ w, v.at? path = some w → ∃ entries, w = .table entries

theorem Toml.TablesAt.of_lookup {paths : List (List String)} {entries : List (String × Toml)}
    (h : (table entries).TablesAt paths) {key : String} (hpath : [key] ∈ paths) {w : Toml}
    (hlookup : List.lookup key entries = some w) : ∃ entries', w = .table entries' :=
  h [key] hpath w (Toml.at?_singleton.trans hlookup)

instance (w : Toml) : Decidable (∃ entries, w = .table entries) :=
  decidable_of_iff (w.isTable = true) (by cases w <;> simp [Toml.isTable])

instance (paths : List (List String)) (v : Toml) : Decidable (v.TablesAt paths) :=
  inferInstanceAs (Decidable (∀ path ∈ paths, ∀ w ∈ v.at? path, ∃ entries, w = .table entries))

/-! ## Overlays -/

/-- Of some paths those that start with a key that was met. -/
def among (met : String → Bool) (stated : List String → Bool) : List String → Bool
  | [] => stated []
  | key :: path => met key && stated (key :: path)

/-- All keys of a table are met in it. -/
theorem among_lookup (entries : List (String × Toml)) :
    among (fun key => (List.lookup key entries).isSome) (Toml.table entries).mentions
      = (Toml.table entries).mentions := by
  funext path
  cases path with
  | nil => rfl
  | cons key path =>
    show ((List.lookup key entries).isSome && ((List.lookup key entries).bind _).isSome)
      = ((List.lookup key entries).bind _).isSome
    cases List.lookup key entries <;> rfl

theorem update_lookup (met : String → Bool) (entry : String × Toml)
    (rest : List (String × Toml)) :
    (fun key => Function.update met entry.1 true key || (List.lookup key rest).isSome)
      = fun key => met key || (List.lookup key (entry :: rest)).isSome := by
  funext key
  by_cases hkey : key = entry.1
  · subst hkey
    rw [Function.update_self, List.lookup_cons_self, Option.isSome_some, Bool.true_or, Bool.or_true]
  · have hbeq : (key == entry.1) = false := by simpa using hkey
    rw [Function.update_of_ne hkey, List.lookup_cons, hbeq]

/-- A key that is set to what a document has under it adds itself to what is stated. -/
def Key.Adds {σ : Type} (key : Key σ) (overlay : (List String → Bool) → σ) (v : Toml) : Prop :=
  ∀ w, v.at? [key.name] = some w → ∀ met : String → Bool,
    key.set w (overlay (among met v.mentions))
      = .ok (overlay (among (Function.update met key.name true) v.mentions))

namespace Key.Adds

variable {σ : Type} {name : String} {overlay : (List String → Bool) → σ}

/-- A key with a value of its own. -/
theorem of_leaf {α : Type} {codec : Codec α} {get : σ → α} {set : α → σ → σ} {leaves : Leaves}
    {v : Toml} {leaf : Leaf} (a : α) (hv : leaves.StatedIn v) (hleaf : ([name], leaf) ∈ leaves)
    (hread : ∀ w, leaf.StatedBy w → codec.read w = .ok a)
    (hset : ∀ met stated, stated [name] = true → set a (overlay (among met stated))
      = overlay (among (Function.update met name true) stated)) :
    (Key.of name codec get set).Adds overlay v := by
  intro w hw met
  have hmentions : v.mentions [name] = true := Option.isSome_iff_exists.mpr ⟨w, hw⟩
  show (codec.read w >>= fun a => pure (set a (overlay (among met v.mentions)))) = _
  rw [hread w (hv _ hleaf w hw), ok_bind, hset met v.mentions hmentions]
  rfl

/-- A key of a section within the section. -/
theorem of_section {τ : Type} {form : Form τ} {default : τ} {get : σ → τ} {set : τ → σ → σ}
    {entries : List (String × Toml)} (inner : (List String → Bool) → τ)
    (hread : ∀ w, List.lookup name entries = some w → form.read default w = .ok (inner w.mentions))
    (hset : ∀ met stated, set (inner fun path => stated (name :: path)) (overlay (among met stated))
      = overlay (among (Function.update met name true) stated)) :
    (Key.of name (form.codec default) get set).Adds overlay (.table entries) := by
  intro w hw met
  have hlookup : List.lookup name entries = some w := Toml.at?_singleton.symm.trans hw
  have hinner : w.mentions = fun path => (Toml.table entries).mentions (name :: path) := by
    funext path
    unfold Toml.mentions
    rw [Toml.at?_cons hlookup]
  show (form.read default w >>= fun a =>
    pure (set a (overlay (among met (Toml.table entries).mentions)))) = _
  rw [hread w hlookup, ok_bind, hinner, hset met]
  rfl

end Key.Adds

namespace Form

variable {σ : Type} {form : Form σ} {overlay : (List String → Bool) → σ}
  {stated : List String → Bool} {entries : List (String × Toml)}

/-- Keys are set one after the other: if each one that is known adds itself to what is stated, then
all of them are stated in the end. -/
theorem setEntries_overlay
    (hknown : ∀ key ∈ form.keys, ∀ w, (key.name, w) ∈ entries → ∀ met : String → Bool,
      key.set w (overlay (among met stated))
        = .ok (overlay (among (Function.update met key.name true) stated)))
    (hunknown : ∀ name, (∀ key ∈ form.keys, key.name ≠ name) → ∀ met : String → Bool,
      overlay (among (Function.update met name true) stated) = overlay (among met stated))
    (met : String → Bool) :
    form.setEntries entries (overlay (among met stated))
      = .ok (overlay (among (fun key => met key || (List.lookup key entries).isSome) stated)) := by
  induction entries generalizing met with
  | nil => simp [setEntries, pure, Except.pure]
  | cons entry rest ih =>
    have hstep : form.setEntry (overlay (among met stated)) entry
        = .ok (overlay (among (Function.update met entry.1 true) stated)) := by
      unfold setEntry
      split
      · rename_i key hfind
        have hname : key.name = entry.1 := by simpa using List.find?_some hfind
        rw [hknown key (List.mem_of_find?_eq_some hfind) entry.2 (by simp [hname]) met, hname]
      · rename_i hfind
        rw [hunknown entry.1 fun key hkey => by simpa using List.find?_eq_none.mp hfind key hkey]
    have hrest := ih (fun key hkey w hw => hknown key hkey w (List.mem_cons_of_mem _ hw))
      (Function.update met entry.1 true)
    rw [update_lookup] at hrest
    unfold setEntries at hrest ⊢
    rw [List.foldlM_cons, hstep]
    exact hrest

/-- A table without a key twice is read as the overlay of what it mentions. -/
theorem read_overlay {default : σ} (hkeys : (entries.map Prod.fst).Nodup)
    (hknown : ∀ key ∈ form.keys, key.Adds overlay (.table entries))
    (hunknown : ∀ name, (∀ key ∈ form.keys, key.name ≠ name) → ∀ met stated,
      overlay (among (Function.update met name true) stated) = overlay (among met stated))
    (hdefault : ∀ stated, overlay (among (fun _ => false) stated) = default) :
    form.read default (.table entries) = .ok (overlay (Toml.table entries).mentions) := by
  have hset : form.setEntries entries
        (overlay (among (fun _ => false) (Toml.table entries).mentions))
      = .ok (overlay (among (fun key => false || (List.lookup key entries).isSome)
        (Toml.table entries).mentions)) := by
    refine setEntries_overlay ?_ (fun name hname met => hunknown name hname met _) _
    intro key hkey w hw
    exact hknown key hkey w (Toml.at?_singleton.trans (Toml.lookup_of_mem hkeys hw))
  simp only [Bool.false_or] at hset
  rw [hdefault, among_lookup] at hset
  exact hset

end Form

/-! ## What every key keeps to -/

theorem foldlM_induction {α β ε : Type} {P : β → Prop} {f : β → α → Except ε β} {xs : List α}
    (hstep : ∀ x ∈ xs, ∀ b b', P b → f b x = .ok b' → P b') {b b' : β} (hb : P b)
    (h : xs.foldlM f b = .ok b') : P b' := by
  induction xs generalizing b with
  | nil =>
    cases h
    exact hb
  | cons x xs ih =>
    rw [List.foldlM_cons] at h
    obtain ⟨b₁, hfirst, hrest⟩ := bind_eq_ok.mp h
    obtain ⟨hx, hxs⟩ := List.forall_mem_cons.mp hstep
    exact ih hxs (hx b b₁ hb hfirst) hrest

section Keeps

variable {σ : Type} {P : σ → Prop}

/-- Setting a key keeps to a property. -/
def Key.Keeps (P : σ → Prop) (key : Key σ) : Prop :=
  ∀ w s s', P s → key.set w s = .ok s' → P s'

/-- It does if setting any value that its codec reads does. -/
theorem Key.Keeps.of {α : Type} {name : String} {codec : Codec α} {get : σ → α} {set : α → σ → σ}
    (h : ∀ w a, codec.read w = .ok a → ∀ s, P s → P (set a s)) :
    (Key.of name codec get set).Keeps P := by
  intro w s s' hs hset
  obtain ⟨a, hread, heq⟩ := bind_eq_ok.mp hset
  cases heq
  exact h w a hread s hs

/-- Whatever a section is read from, what its default and its keys keep to holds of it. -/
theorem Form.read_keeps {form : Form σ} {default s : σ} {v : Toml} (hdefault : P default)
    (hkeys : ∀ key ∈ form.keys, key.Keeps P) (h : form.read default v = .ok s) : P s := by
  have hitems (items : List Toml) (h : form.setItems items default = .ok s) : P s := by
    refine foldlM_induction ?_ hdefault h
    rintro ⟨key, w⟩ hmem s s' hs hset
    exact hkeys key (List.of_mem_zip hmem).1 w s s' hs hset
  cases v with
  | table entries =>
    refine foldlM_induction (f := form.setEntry) ?_ hdefault h
    intro entry _ s s' hs hset
    unfold setEntry at hset
    split at hset
    · exact hkeys _ (List.mem_of_find?_eq_some ‹_›) entry.2 s s' hs hset
    · cases hset
      exact hs
  | array items => exact hitems items h
  | tables items => exact hitems items h
  | moment =>
    cases h
    exact hdefault
  | text | integer | double | flag => cases h

end Keeps

end Placement
