import SitePatch.Toml.Reader

/-! # TOML documents

`Toml.parse?` reads a whole document into its top table, or nothing where the text breaks the rules
of TOML 1.1. Arrays and inline tables nest at most `maxDepth` deep. -/

namespace SitePatch.Toml

/-- How deep arrays and inline tables nest. -/
def maxDepth : Nat := 80

namespace Reader

/-! ## Values -/

/-- Takes a value that holds no other value. -/
def scalar : Reader Value := do
  match ← peek? with
  | some '"' | some '\'' => return .string (← string)
  | _ =>
    let literal ← takeRun Scalar.isLiteralChar
    let t ← get
    -- a date and a time may be one space apart
    let literal ←
      match t with
      | ' ' :: c :: _ =>
        if Scalar.isDate literal && c.isDigit then do
          let _ ← one (· == ' ')
          pure (literal ++ ' ' :: (← takeRun Scalar.isLiteralChar))
        else pure literal
      | _ => pure literal
    match Scalar.read? literal with
    | some v => return v
    | none => failure

/-- Takes the rest of an array whose items are read by `item`. -/
def arrayRest (item : Reader Value) : Reader Value :=
  loop (fun items => do
    blanks
    if ← word "]" then return .inr (.array items.reverse)
    let v ← item
    blanks
    if ← word "," then return .inl (v :: items)
    char ']'
    return .inr (.array (v :: items).reverse)) []

/-- Takes a key and a value read by `item`, and gives the table with both. The equals sign may stand
on a line of its own. -/
def entry (item : Reader Value) (t : Table) : Reader Table := do
  let (path, last) ← key
  blanks
  char '='
  blanks
  let v ← item
  match t.add? path last v with
  | some t => return t
  | none => failure

/-- Takes the rest of an inline table whose values are read by `item`. -/
def inlineRest (item : Reader Value) : Reader Value :=
  loop (fun (t : Table) => do
    blanks
    if ← word "\x7d" then return .inr (.table .inlined t)
    let t ← entry item t
    blanks
    if ← word "," then return .inl t
    char '\x7d'
    return .inr (.table .inlined t)) []

/-- Takes a value in which values nest at most so deep. -/
def value : (depth : Nat) → Reader Value
  | 0 => scalar
  | depth + 1 => do
    if ← word "[" then arrayRest (value depth)
    else if ← word "\x7b" then inlineRest (value depth)
    else scalar

/-! ## Lines -/

/-- What has been read of a document: its top table, and the way to the table that is open. -/
structure Progress where
  top : Table
  current : List Text

/-- Takes what may stand behind a header or a value up to the end of its line. -/
def lineEnd : Reader Unit := do
  gap
  comment
  unless ← lineBreak do
    unless (← peek?).isNone do failure

/-- Takes the rest of the header of a table or, with two brackets, of an element. -/
def header (p : Progress) : Reader Progress := do
  let element ← word "["
  gap
  let (path, last) ← key
  char ']'
  if element then char ']'
  let opened := if element then p.top.openElement? path last else p.top.openTable? path last
  match opened with
  | some top => return ⟨top, path ++ [last]⟩
  | none => failure

/-- Takes a key and its value, which belong to the open table. -/
def line (p : Progress) : Reader Progress := do
  let (path, last) ← key
  char '='
  gap
  let v ← value maxDepth
  match Table.changeAt? (fun t => t.add? path last v) p.current p.top with
  | some top => return ⟨top, p.current⟩
  | none => failure

/-- Takes a whole document. -/
def document : Reader Table := do
  let _ ← word "\uFEFF"
  loop (fun (p : Progress) => do
    blanks
    match ← peek? with
    | none => return .inr p.top
    | some '[' => do
      char '['
      let p ← header p
      lineEnd
      return .inl p
    | some _ => do
      let p ← line p
      lineEnd
      return .inl p) ⟨[], []⟩

end Reader

/-- **The top table** of the document that the text writes. -/
def parse? (t : Text) : Option Table := (StateT.run Reader.document t).map Prod.fst

end SitePatch.Toml
