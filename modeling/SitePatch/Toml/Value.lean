import SitePatch.Text

/-! # TOML values and tables

The values of a TOML document, and the rules by which its tables grow. A table remembers how it came
to be (`TableForm`), because that decides what may still be added to it: a header may open a table
only once, a dotted key may extend only tables that dotted keys made, and an inline table is closed.
Every operation answers nothing where the rules forbid it. -/

namespace SitePatch.Toml

/-- How a table came to be. -/
inductive TableForm
  /-- It stands on the way to a table with a header. -/
  | implied
  /-- It stands on the way to a value with a dotted key. -/
  | dotted
  /-- It has a header. -/
  | header
  /-- It is written in braces. -/
  | inlined
deriving DecidableEq, Repr

/-- **A TOML value.** -/
inductive Value
  | string (t : Text)
  | integer (n : Int)
  /-- A float, as it is written. -/
  | float (literal : Text)
  | boolean (b : Bool)
  /-- A date, a time, or both, as written. -/
  | datetime (literal : Text)
  /-- An array written in brackets. -/
  | array (items : List Value)
  | table (form : TableForm) (entries : List (Text × Value))
  /-- An array of tables with headers. -/
  | tables (elements : List (List (Text × Value)))

/-- **A table**: keys, each with its value, in the order in which they were first written. -/
abbrev Table := List (Text × Value)

namespace Table

/-- The value of a key. -/
def get? (t : Table) (key : Text) : Option Value := t.lookup key

/-- The table in which `key` has the value `v`. -/
def set (key : Text) (v : Value) : Table → Table
  | [] => [(key, v)]
  | (k, old) :: rest => if k = key then (k, v) :: rest else (k, old) :: set key v rest

/-- The empty table has no keys. -/
@[simp] theorem get?_nil (key : Text) : get? [] key = none := rfl

/-- The key that was set has the new value, and every other key keeps its own. -/
theorem get?_set (t : Table) (key k : Text) (v : Value) :
    (t.set key v).get? k = if k = key then some v else t.get? k := by
  induction t with
  | nil =>
    by_cases h : k = key
    · simp [set, get?, h]
    · have : (k == key) = false := by simpa using h
      simp [set, get?, List.lookup_cons, h, this]
  | cons entry rest ih =>
    obtain ⟨k', old⟩ := entry
    simp only [get?] at ih ⊢
    by_cases hk : k' = key
    · subst hk
      by_cases h : k = k'
      · simp [set, h]
      · have : (k == k') = false := by simpa using h
        simp [set, List.lookup_cons, h, this]
    · by_cases h : k = k'
      · subst h
        simp [set, hk]
      · have : (k == k') = false := by simpa using h
        simp [set, List.lookup_cons, hk, this, ih]

/-! ## Values with keys -/

/-- The table with one more key, which must be new. -/
def addKey? (t : Table) (key : Text) (v : Value) : Option Table :=
  match t.get? key with
  | none => some (t.set key v)
  | some _ => none

/-- The table of the given form with a value under the dotted key `path`, `key`. The tables on the
way may not have a header, and the last of them must stem from a dotted key. -/
def addAlong? : (path : List Text) → (key : Text) → Value → TableForm → Table → Option Table
  | [], key, v, form, t => if form = .dotted then t.addKey? key v else none
  | p :: ps, key, v, _, t =>
    match t.get? p with
    | none => (addAlong? ps key v .dotted []).map fun sub => t.set p (.table .dotted sub)
    -- an implied table may be passed through, but takes no value itself
    | some (.table .implied sub) =>
      (addAlong? ps key v .implied sub).map fun sub => t.set p (.table .implied sub)
    | some (.table .dotted sub) =>
      (addAlong? ps key v .dotted sub).map fun sub => t.set p (.table .dotted sub)
    -- the way leads through the last element, which has a header
    | some (.tables elements) =>
      match elements.getLast? with
      | none => none
      | some last =>
        (addAlong? ps key v .header last).map fun sub =>
          t.set p (.tables (elements.dropLast ++ [sub]))
    | some _ => none

/-- The table with a value under a key, which may be dotted. -/
def add? (t : Table) (path : List Text) (key : Text) (v : Value) : Option Table :=
  match path with
  | [] => t.addKey? key v
  | _ => addAlong? path key v .header t

/-! ## Tables with headers -/

/-- The table in which `change` has been made to the table at `path`. Tables that are missing on the
way are implied; in an array of tables the way leads through its last element. -/
def changeAt? (change : Table → Option Table) : (path : List Text) → Table → Option Table
  | [], t => change t
  | p :: ps, t =>
    match t.get? p with
    | none => (changeAt? change ps []).map fun sub => t.set p (.table .implied sub)
    | some (.table .inlined _) => none
    | some (.table form sub) =>
      (changeAt? change ps sub).map fun sub => t.set p (.table form sub)
    | some (.tables elements) =>
      match elements.getLast? with
      | none => none
      | some last =>
        (changeAt? change ps last).map fun sub =>
          t.set p (.tables (elements.dropLast ++ [sub]))
    | some _ => none

/-- The table after the header of a table: the table is new, or so far only implied. -/
def openTable? (t : Table) (path : List Text) (key : Text) : Option Table :=
  changeAt? (fun parent =>
    match parent.get? key with
    | none => some (parent.set key (.table .header []))
    | some (.table .implied sub) => some (parent.set key (.table .header sub))
    | some _ => none) path t

/-- The table after the header of an element of an array of tables. -/
def openElement? (t : Table) (path : List Text) (key : Text) : Option Table :=
  changeAt? (fun parent =>
    match parent.get? key with
    | none => some (parent.set key (.tables [[]]))
    | some (.tables elements) => some (parent.set key (.tables (elements ++ [[]])))
    | some _ => none) path t

end Table

end SitePatch.Toml
