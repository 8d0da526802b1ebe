import Placement.Toml.Printer
/-
  Sections of a tuning document. A section is a list of keys; each knows how its value is read,
  where it is kept and how it is written. Keys that a document leaves out keep their default, and
  keys that no section knows are passed over.
-/
namespace Placement

/-- Why a document does not hold a tuning, although it is TOML. -/
inductive DataFault where
  | wrongType (found : Toml) (wanted : String)
  | outside (found : Int64) (wanted : String)
  | unknownVariant (given : String) (known : List String)
  /-- A choice that is neither a name nor a table. -/
  | notAChoice
  /-- A choice as a table without a key. -/
  | noChoice
  /-- A choice as a table with several keys. -/
  | manyChoices
  /-- A choice that carries something. -/
  | choiceNotEmpty
  /-- A choice that headers give one table after the other. -/
  | choiceRepeated
  | choiceNotTable (kind : String)

/-- The name of a kind of plain value. -/
def Toml.kind : Toml → String
  | .text _ => "string"
  | .integer _ => "integer"
  | .double _ => "float"
  | .flag _ => "boolean"
  | .moment => "datetime"
  | .array _ => "array"
  | .tables _ => "array of tables"
  | .table _ => "table"

/-- What a value is called when it was not expected. -/
def Toml.describe : Toml → String
  | .text s => "string " ++ Text.quoted s
  | .integer i => "integer `" ++ renderInteger i ++ "`"
  | .double x => "floating point `" ++ Decimal.pointed.write x ++ "`"
  | .flag b => "boolean `" ++ (if b then "true" else "false") ++ "`"
  | .array _ | .tables _ => "sequence"
  | .moment | .table _ => "map"

/-- A fault in words. -/
def DataFault.message : DataFault → String
  | .wrongType found wanted => "invalid type: " ++ found.describe ++ ", expected " ++ wanted
  | .outside found wanted =>
    "invalid value: integer `" ++ Toml.renderInteger found ++ "`, expected " ++ wanted
  | .unknownVariant given known =>
    "unknown variant `" ++ given ++ "`, expected "
      ++ " or ".intercalate (known.map fun name => "`" ++ name ++ "`")
  | .notAChoice => "wanted string or table"
  | .noChoice => "wanted exactly 1 element, found 0 elements"
  | .manyChoices => "wanted exactly 1 element, more than 1 element"
  | .choiceNotEmpty => "expected empty table"
  | .choiceRepeated => "expected empty array"
  | .choiceNotTable kind => "expected table, found " ++ kind

/-- How a value is read from a document and written to one. -/
structure Codec (α : Type) where
  read : Toml → Except DataFault α
  write : α → Toml

namespace Codec

/-- Doubles; an integer is read as the nearest one. -/
def double : Codec Float where
  read
    | .double x => .ok x
    | .integer i => .ok (Json.nearestDouble i)
    | v => .error (.wrongType v "f64")
  write := .double

/-- Truth values. -/
def flag : Codec Bool where
  read
    | .flag b => .ok b
    | v => .error (.wrongType v "a boolean")
  write := .flag

/-- Natural numbers of 32 bits. -/
def count32 : Codec UInt32 where
  read
    | .integer i =>
      if 0 ≤ i.toInt ∧ i.toInt < UInt32.size then .ok i.toInt.toNat.toUInt32
      else .error (.outside i "u32")
    | v => .error (.wrongType v "u32")
  write n := .integer (Int64.ofInt n.toNat)

/-- Natural numbers that fit a signed word of 64 bits. -/
def count64 : Codec UInt64 where
  read
    | .integer i =>
      if 0 ≤ i.toInt then .ok i.toInt.toNat.toUInt64 else .error (.outside i "u64")
    | v => .error (.wrongType v "u64")
  write n := .integer (Int64.ofInt n.toNat)

/-- What a choice must carry in the form of a table: nothing. -/
def emptyChoice : Toml → Except DataFault Unit
  | .array [] | .table [] => .ok ()
  | .array _ | .table _ => .error .choiceNotEmpty
  | .tables _ => .error .choiceRepeated
  | v => .error (.choiceNotTable v.kind)

/-- One of some named values: its name, or a table with the name as its only key. -/
def choice {α : Type} (known : List (String × α)) (name : α → String) : Codec α where
  read v := do
    let find (given : String) : Except DataFault α :=
      match List.lookup given known with
      | some a => .ok a
      | none => .error (.unknownVariant given (known.map (·.1)))
    match v with
    | .text given => find given
    | .table [] => throw .noChoice
    | .table [(given, content)] =>
      let a ← find given
      emptyChoice content
      return a
    | .table _ => throw .manyChoices
    | _ => throw .notAChoice
  write a := .text (name a)

end Codec

/-- A key of a section that is kept in `σ`. -/
structure Key (σ : Type) where
  name : String
  set : Toml → σ → Except DataFault σ
  get : σ → Toml

/-- A key whose value is kept by a codec. -/
def Key.of {σ α : Type} (name : String) (codec : Codec α) (get : σ → α) (set : α → σ → σ) :
    Key σ where
  name := name
  set v s := do return set (← codec.read v) s
  get s := codec.write (get s)

/-- A section: its name, and its keys in their order. -/
structure Form (σ : Type) where
  name : String
  keys : List (Key σ)

namespace Form

variable {σ : Type}

/-- Sets the value of a key, if the section knows it. -/
def setEntry (form : Form σ) (s : σ) (entry : String × Toml) : Except DataFault σ :=
  match form.keys.find? fun key => key.name = entry.1 with
  | some key => key.set entry.2 s
  | none => .ok s

/-- Sets keys in the order of a document. -/
def setEntries (form : Form σ) (entries : List (String × Toml)) (s : σ) : Except DataFault σ :=
  entries.foldlM form.setEntry s

/-- Sets keys by their position. -/
def setItems (form : Form σ) (items : List Toml) (s : σ) : Except DataFault σ :=
  (form.keys.zip items).foldlM (fun s pair => pair.1.set pair.2 s) s

/-- Reads a section over its defaults, from a table or from an array of its values. A moment counts
as a table without a key that the section knows. -/
def read (form : Form σ) (default : σ) : Toml → Except DataFault σ
  | .table entries => form.setEntries entries default
  | .array items | .tables items => form.setItems items default
  | .moment => .ok default
  | v => .error (.wrongType v ("struct " ++ form.name))

/-- Writes every key of a section. -/
def write (form : Form σ) (s : σ) : Toml := .table (form.keys.map fun key => (key.name, key.get s))

/-- A section as a value. -/
def codec (form : Form σ) (default : σ) : Codec σ where
  read := form.read default
  write := form.write

end Form

end Placement
