import SitePatch.Toml.Scalar

/-! # Reading the small parts of TOML

A `Reader` takes a part off the front of a text, or fails. This module reads what stands between
values (white space, comments, line breaks), the four kinds of strings, and keys. -/

namespace SitePatch.Toml

/-- **A reader**: it takes a part off the front of the text, or fails. -/
abbrev Reader := StateT Text Option

namespace Reader

/-! ## Characters -/

/-- The next character, which is left in place; nothing at the end. -/
def peek? : Reader (Option Char) := do return (← get).head?

/-- Takes one character of the class. -/
def one (p : Char → Bool) : Reader Char := do
  match ← get with
  | c :: rest => if p c then do set rest; return c else failure
  | [] => failure

/-- Takes this character. -/
def char (c : Char) : Reader Unit := do
  let _ ← one (· == c)

/-- Takes this word if it stands here, and says whether it did. -/
def word (w : Text) : Reader Bool := do
  let t ← get
  if w.isPrefixOf t then do
    set (t.drop w.length)
    return true
  else return false

/-- Takes all characters of the class that stand here. -/
def takeRun (p : Char → Bool) : Reader Text := do
  let t ← get
  set (t.dropWhile p)
  return t.takeWhile p

/-- Repeats a step, at most `most` times, until it has a result. -/
def repeatUpTo {α β : Type} (step : α → Reader (α ⊕ β)) : (most : Nat) → α → Reader β
  | 0, _ => failure
  | most + 1, a => do
    match ← step a with
    | .inl next => repeatUpTo step most next
    | .inr result => return result

/-- Repeats a step until it has a result. A step that has none takes at least one character, so
there are no more steps than characters, and one. -/
def loop {α β : Type} (step : α → Reader (α ⊕ β)) (a : α) : Reader β := do
  repeatUpTo step ((← get).length + 1) a

/-! ## Between values -/

/-- Spaces and tabs. -/
def isGapChar (c : Char) : Bool := c == ' ' || c == '\t'

/-- What may stand in a line of text: no control characters but the tab. -/
def isLineChar (c : Char) : Bool := c == '\t' || (0x20 ≤ c.toNat && c.toNat != 0x7F)

/-- Takes spaces and tabs. -/
def gap : Reader Unit := do
  let _ ← takeRun isGapChar

/-- Takes a comment if one stands here. -/
def comment : Reader Unit := do
  if ← word "#" then
    let _ ← takeRun isLineChar

/-- Takes a line break if one stands here, and says whether it did. -/
def lineBreak : Reader Bool := do
  if ← word "\r\n" then return true else word "\n"

/-- Takes white space, comments and line breaks. -/
def blanks : Reader Unit :=
  loop (fun _ => do
    gap
    comment
    if ← lineBreak then return .inl () else return .inr ()) ()

/-! ## Strings -/

/-- Takes `count` hexadecimal digits and gives the character with that code point. -/
def codePoint (count : Nat) : Reader Char := do
  let digits ← (List.range count).mapM fun _ => one (Scalar.isDigitIn 16)
  let n := Scalar.valueIn 16 digits
  if n.isValidChar then return Char.ofNat n else failure

/-- Takes what follows a backslash and gives the character it stands for. -/
def escaped : Reader Char := do
  match ← one (fun _ => true) with
  | 'b' => return '\x08'
  | 't' => return '\t'
  | 'n' => return '\n'
  | 'f' => return '\x0c'
  | 'r' => return '\r'
  | 'e' => return '\x1b'
  | '"' => return '"'
  | '\\' => return '\\'
  | 'x' => codePoint 2
  | 'u' => codePoint 4
  | 'U' => codePoint 8
  | _ => failure

/-- The rest of a string that ends at `quote` on its own line. Only a double quote allows escapes.
-/
def lineString (quote : Char) : Reader Text :=
  loop (fun seen => do
    match ← one isLineChar with
    | '\\' => if quote = '"' then return .inl ((← escaped) :: seen) else return .inl ('\\' :: seen)
    | c => if c = quote then return .inr seen.reverse else return .inl (c :: seen)) []

/-- Takes the white space and the line breaks after a backslash at the end of a line, if a line ends
here, and says whether it did. -/
def lineContinuation : Reader Bool := do
  let t ← get
  gap
  if ← lineBreak then
    loop (fun _ => do
      let taken ← takeRun isGapChar
      if ← lineBreak then return .inl ()
      else if taken.isEmpty then return .inr ()
      else return .inl ()) ()
    return true
  else
    set t
    return false

/-- The rest of a string that ends at three quotes. A line break at its start does not count, and up
to two quotes before the closing ones belong to the string. -/
def longString (quote : Char) : Reader Text := do
  let _ ← lineBreak
  loop (fun seen => do
    let t ← get
    if t.head? = some quote then
      let quotes ← takeRun (· == quote)
      if quotes.length < 3 then return .inl (quotes ++ seen)
      else if quotes.length ≤ 5 then return .inr ((quotes.drop 3) ++ seen).reverse
      else failure
    else if ← word "\r\n" then return .inl ('\n' :: '\r' :: seen)
    else if ← word "\n" then return .inl ('\n' :: seen)
    else
      match ← one isLineChar with
      | '\\' =>
        if quote = '"' then
          if ← lineContinuation then return .inl seen else return .inl ((← escaped) :: seen)
        else return .inl ('\\' :: seen)
      | c => return .inl (c :: seen)) []

/-- Takes a string with its quotes. -/
def string : Reader Text := do
  if ← word "\"\"\"" then longString '"'
  else if ← word "'''" then longString '\''
  else if ← word "\"" then lineString '"'
  else do
    char '\''
    lineString '\''

/-! ## Keys -/

/-- The characters of keys without quotes. -/
def isKeyChar (c : Char) : Bool := Text.isIdentChar c || c == '-'

/-- Takes one part of a key: a word, or a string on one line. -/
def keyPart : Reader Text := do
  match ← peek? with
  | some '"' => do char '"'; lineString '"'
  | some '\'' => do char '\''; lineString '\''
  | _ => do
    let w ← takeRun isKeyChar
    if w.isEmpty then failure else return w

/-- How many parts a key may have. -/
def maxKeyParts : Nat := 80

/-- Takes a key and gives the parts before its last dot, and its last part. -/
def key : Reader (List Text × Text) :=
  loop (fun path => do
    if maxKeyParts ≤ path.length then failure
    let part ← keyPart
    gap
    if ← word "." then do
      gap
      return .inl (path ++ [part])
    else return .inr (path, part)) []

end Reader

end SitePatch.Toml
