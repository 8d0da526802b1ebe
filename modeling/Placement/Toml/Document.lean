import Placement.Toml.Value
/-
  Tables of a document while it is read. Keys in dots and headers open tables on their way; a table
  that only lies on the way may be given its own header later, but no table is given twice.
-/
namespace Placement.Toml

/-- A table under construction, or what stands in one. -/
inductive Node where
  | value (v : Toml)
  /-- `implicit`: no header has given it yet; `dotted`: opened by a key in dots. -/
  | table (implicit dotted : Bool) (entries : List (String × Node))
  /-- Tables given one after the other under one name. -/
  | tables (elements : List Node)

namespace Node

/-- A table without entries. -/
def empty : Node := .table false false []

/-- Puts a node in the place of an entry. -/
def replace (key : String) (n : Node) : List (String × Node) → List (String × Node)
  | [] => []
  | (k, v) :: rest => if k = key then (k, n) :: rest else (k, v) :: replace key n rest

/-- Changes the table at the end of a path, and opens the tables on the way. A path in dots must
not enter a table that has a header of its own. -/
def descend? {β : Type} (dotted : Bool) (change : Node → Option (β × Node)) :
    List String → Node → Option (β × Node)
  | [], n => change n
  | key :: path, .table implicit isDotted entries =>
    match List.lookup key entries with
    | none => do
      let (b, child) ← descend? dotted change path (.table true dotted [])
      some (b, .table implicit isDotted (entries ++ [(key, child)]))
    | some (.value _) => none
    | some (.tables elements) =>
      match elements.getLast? with
      | none => none
      | some last => do
        let (b, child) ← descend? dotted change path last
        let all := elements.dropLast ++ [child]
        some (b, .table implicit isDotted (replace key (.tables all) entries))
    | some (.table childImplicit childDotted childEntries) =>
      if dotted && !childImplicit then none
      else do
        let (b, child) ←
          descend? dotted change path (.table childImplicit childDotted childEntries)
        some (b, .table implicit isDotted (replace key child entries))
  | _ :: _, _ => none

/-- Adds a value under a path of keys. A table is filled either through dots or under its header,
and no key is given twice. -/
def insert? (path : List String) (key : String) (v : Toml) (n : Node) : Option Node :=
  let add : Node → Option (Unit × Node)
    | .table implicit isDotted entries =>
      if isDotted = path.isEmpty || (List.lookup key entries).isSome then none
      else some ((), .table implicit isDotted (entries ++ [(key, .value v)]))
    | _ => none
  (descend? true add path n).map (·.2)

mutual

/-- The data of a node. -/
def toToml : Node → Toml
  | .value v => v
  | .table _ _ entries => .table (entriesToToml entries)
  | .tables elements => .tables (elementsToToml elements)

/-- The data of the entries of a table. -/
def entriesToToml : List (String × Node) → List (String × Toml)
  | [] => []
  | (k, n) :: rest => (k, toToml n) :: entriesToToml rest

/-- The data of tables under one name. -/
def elementsToToml : List Node → List Toml
  | [] => []
  | n :: rest => toToml n :: elementsToToml rest

end

end Node

/-- A document while it is read: what is closed, and the table that the last header opened. -/
structure Draft where
  root : Node
  current : Node
  path : List String
  /-- Whether the current table is one of several under its name. -/
  repeated : Bool

namespace Draft

/-- A document before its first line. -/
def start : Draft := ⟨.empty, .empty, [], false⟩

/-- Puts the current table in its place. -/
def close? (d : Draft) : Option Node :=
  match d.path.getLast? with
  | none => some d.current
  | some key =>
    let place : Node → Option (Unit × Node)
      | .table implicit isDotted entries =>
        match List.lookup key entries, d.repeated with
        | none, false => some ((), .table implicit isDotted (entries ++ [(key, d.current)]))
        | none, true =>
          some ((), .table implicit isDotted (entries ++ [(key, .tables [d.current])]))
        | some (.tables elements), true =>
          some ((), .table implicit isDotted
            (Node.replace key (.tables (elements ++ [d.current])) entries))
        | some _, _ => none
      | _ => none
    (Node.descend? false place d.path.dropLast d.root).map (·.2)

/-- Opens the table of a header. A table that lay on the way of another header keeps its entries
and moves to the end. -/
def openTable? (d : Draft) (path : List String) : Option Draft := do
  let root ← d.close?
  let key ← path.getLast?
  let take : Node → Option (Node × Node)
    | .table implicit isDotted entries =>
      match List.lookup key entries with
      | none => some (.empty, .table implicit isDotted entries)
      | some (.table true false inner) =>
        some (.table false false inner,
          .table implicit isDotted (entries.filter fun entry => entry.1 ≠ key))
      | some _ => none
    | _ => none
  let (current, root) ← Node.descend? false take path.dropLast root
  some ⟨root, current, path, false⟩

/-- Opens one more table under a name. -/
def openElement? (d : Draft) (path : List String) : Option Draft := do
  let root ← d.close?
  let key ← path.getLast?
  let reserve : Node → Option (Unit × Node)
    | .table implicit isDotted entries =>
      match List.lookup key entries with
      | none => some ((), .table implicit isDotted (entries ++ [(key, .tables [])]))
      | some (.tables elements) =>
        some ((), .table implicit isDotted (Node.replace key (.tables elements) entries))
      | some _ => none
    | _ => none
  let (_, root) ← Node.descend? false reserve path.dropLast root
  some ⟨root, .empty, path, true⟩

/-- Adds a value to the current table. -/
def insert? (d : Draft) (path : List String) (key : String) (v : Toml) : Option Draft := do
  let current ← d.current.insert? path key v
  some { d with current }

/-- The data of a document after its last line. -/
def finish? (d : Draft) : Option Toml := d.close?.map Node.toToml

end Draft

end Placement.Toml
