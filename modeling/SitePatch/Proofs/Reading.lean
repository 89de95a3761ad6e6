import SitePatch.Proofs.Condition

/-! # How C++ reads a condition

A condition is text, and what it means is up to C++. `Cpp.lex` cuts a text into tokens, `Cpp.parse`
reads tokens as alternatives of which each is a list of factors — `&&` binds tighter than `||` — and
`Cpp.value` evaluates them for one called name. A text with parentheses, comments or operators that
bind looser than `||` is not read. Main statement: checks put behind a condition are read as what
they are, further alternatives or further factors of the last alternative (`read_extend`). -/

namespace SitePatch.Cpp

/-! ## Tokens -/

/-- A quote. -/
inductive Quote
  | double
  | single
deriving DecidableEq

/-- The character that is written for the quote. -/
def Quote.char : Quote → Char
  | double => '"'
  | single => '\''

/-- **A token.** -/
inductive Token
  /-- A name, a keyword or a number. -/
  | word (t : Text)
  /-- What stands between two quotes, and the quotes. -/
  | quoted (q : Quote) (t : Text)
  /-- An operator or another mark. -/
  | symbol (t : Text)
deriving DecidableEq

/-- What is being read: nothing, or the beginning of a token. -/
inductive Pending
  | nothing
  | word (t : Text)
  | symbol (c : Char)
  | quoted (q : Quote) (t : Text) (escaped : Bool)
deriving DecidableEq

/-- **The state of reading a text**: the tokens that are complete, and what is being read. -/
structure Lexer where
  tokens : List Token
  pending : Pending
deriving DecidableEq

/-- Whether the character belongs to a name or a number. -/
def isWordChar (c : Char) : Bool := Text.isIdentChar c || 0x80 ≤ c.toNat && !Text.isBlank c

/-- The characters of which marks are made. Parentheses are not among them. -/
def symbolChars : List Char := "+-*/%^&|~!=<>.,:;?[]{}".toList

/-- The characters that make one mark with the character before them. -/
def symbolPairs : List (Char × Char) :=
  [('-', '>'), ('+', '+'), ('-', '-'), ('&', '&'), ('|', '|'), ('=', '='), ('!', '='), ('<', '='),
    ('>', '='), ('<', '<'), ('>', '>'), (':', ':'), ('+', '='), ('-', '='), ('*', '='), ('/', '='),
    ('%', '='), ('&', '='), ('|', '='), ('^', '='), ('/', '/'), ('/', '*')]

namespace Lexer

/-- The state before a text is read. -/
def init : Lexer := ⟨[], .nothing⟩

/-- The state after the first character of what comes next. -/
def start (tokens : List Token) (c : Char) : Option Lexer :=
  if Text.isBlank c then some ⟨tokens, .nothing⟩
  else if isWordChar c then some ⟨tokens, .word [c]⟩
  else if c = Quote.double.char then some ⟨tokens, .quoted .double [] false⟩
  else if c = Quote.single.char then some ⟨tokens, .quoted .single [] false⟩
  else if symbolChars.contains c then some ⟨tokens, .symbol c⟩
  else none

/-- The state after one more character. No quotes reach over a line break. -/
def step (l : Lexer) (c : Char) : Option Lexer :=
  match l.pending with
  | .nothing => start l.tokens c
  | .word t =>
    if isWordChar c then some ⟨l.tokens, .word (t ++ [c])⟩ else start (l.tokens ++ [.word t]) c
  | .symbol d =>
    if symbolPairs.contains (d, c) then some ⟨l.tokens ++ [.symbol [d, c]], .nothing⟩
    else start (l.tokens ++ [.symbol [d]]) c
  | .quoted q t escaped =>
    if c = '\n' then none
    else if escaped then some ⟨l.tokens, .quoted q (t ++ [c]) false⟩
    else if c = q.char then some ⟨l.tokens ++ [.quoted q t], .nothing⟩
    else some ⟨l.tokens, .quoted q (t ++ [c]) (c == '\\')⟩

/-- The tokens at the end of the text, unless it ends between quotes. -/
def finish (l : Lexer) : Option (List Token) :=
  match l.pending with
  | .nothing => some l.tokens
  | .word t => some (l.tokens ++ [.word t])
  | .symbol c => some (l.tokens ++ [.symbol [c]])
  | .quoted _ _ _ => none

/-- The state after a text. -/
def run (l : Lexer) (t : Text) : Option Lexer := t.foldlM step l

end Lexer

/-- **The tokens of a text.** -/
def lex (t : Text) : Option (List Token) := (Lexer.init.run t).bind Lexer.finish

/-! ## Conditions -/

/-- What stands between two connectives. -/
abbrev Atom := List Token

/-- **A condition as it is read**: alternatives, each a list of factors. -/
abbrev Formula := List (List Atom)

/-- The state of reading tokens: the alternatives and the factors that are complete, the atom that
is being read, and in how many brackets it stands. -/
structure Parser where
  alternatives : Formula
  factors : List Atom
  atom : Atom
  depth : Nat
deriving DecidableEq

/-- The token that joins alternatives. -/
def orToken : Token := .symbol ['|', '|']

/-- The token that joins factors. -/
def andToken : Token := .symbol ['&', '&']

/-- The brackets that open. What stands in brackets belongs to the atom. -/
def openTokens : List Token := [.symbol ['['], .symbol ['{']]

/-- The brackets that close. -/
def closeTokens : List Token := [.symbol [']'], .symbol ['}']]

/-- The marks and words that do not stand in an atom outside brackets: they bind looser than `||`,
or join conditions in another spelling. -/
def looseTokens : List Token :=
  ["=", "+=", "-=", "*=", "/=", "%=", "&=", "|=", "^=", "?", ":", ",", ";"].map (.symbol ·.toList)
    ++ ["and", "or", "throw", "co_yield"].map (.word ·.toList)

/-- The starts of comments, which are not read. -/
def commentTokens : List Token := [.symbol ['/', '/'], .symbol ['/', '*']]

/-- The tokens that have a meaning outside an atom. -/
def markTokens : List Token :=
  commentTokens ++ openTokens ++ closeTokens ++ looseTokens ++ [orToken, andToken]

namespace Parser

/-- The state before tokens are read. -/
def init : Parser := ⟨[], [], [], 0⟩

/-- The state with one more token in the atom. -/
def push (p : Parser) (t : Token) : Parser := { p with atom := p.atom ++ [t] }

/-- The state after one more token. A connective needs an atom before it. -/
def step (p : Parser) (t : Token) : Option Parser :=
  if t ∈ commentTokens then none
  else if t ∈ openTokens then some { p.push t with depth := p.depth + 1 }
  else if t ∈ closeTokens then
    if p.depth = 0 then none else some { p.push t with depth := p.depth - 1 }
  else if p.depth ≠ 0 then some (p.push t)
  else if t ∈ looseTokens then none
  else if t = orToken then
    if p.atom = [] then none else some ⟨p.alternatives ++ [p.factors ++ [p.atom]], [], [], 0⟩
  else if t = andToken then
    if p.atom = [] then none else some ⟨p.alternatives, p.factors ++ [p.atom], [], 0⟩
  else some (p.push t)

/-- The condition at the end of the tokens, unless an atom is missing or a bracket is open. -/
def finish (p : Parser) : Option Formula :=
  if p.depth = 0 ∧ p.atom ≠ [] then some (p.alternatives ++ [p.factors ++ [p.atom]]) else none

/-- The state after some tokens. -/
def run (p : Parser) (ts : List Token) : Option Parser := ts.foldlM step p

end Parser

/-- **The condition that the tokens make up.** -/
def parse (ts : List Token) : Option Formula := (Parser.init.run ts).bind Parser.finish

/-- **The condition that a text is read as**, if it is a condition without parentheses. -/
def read (t : Text) : Option Formula := (lex t).bind parse

/-! ## Values -/

/-- **What the value of a condition depends on**: the name that is called, and the truth of the
atoms that do not compare it. -/
structure Valuation where
  called : Text
  truth : Atom → Bool

/-- The comparison of the field with a string that an atom makes. The word `require` names a
variable that holds the base name; quotes with escapes in them are left to the valuation. -/
def comparison? (f : ConditionForm) (a : Atom) : Option (Comparison × Text) :=
  match lex f.field with
  | none => none
  | some field =>
    let comparison (operator operand : Text) : Option (Comparison × Text) :=
      if operator = Comparison.equal.operator then some (.equal, operand)
      else if operator = Comparison.notEqual.operator then some (.notEqual, operand)
      else none
    if field.isPrefixOf a then
      match a.drop field.length with
      | [.symbol operator, .quoted .double t] =>
        if t.contains '\\' then none else comparison operator t
      | [.symbol operator, .word w] =>
        if w = baseName then comparison operator baseName else none
      | _ => none
    else none

/-- The value of an atom at a site. -/
def atomValue (f : ConditionForm) (v : Valuation) (a : Atom) : Bool :=
  match comparison? f a with
  | some (.equal, t) => v.called == t
  | some (.notEqual, t) => v.called != t
  | none => v.truth a

/-- **The value of a condition at a site.** -/
def value (f : ConditionForm) (v : Valuation) (e : Formula) : Bool :=
  e.any fun factors => factors.all (atomValue f v)

/-- Alternatives of two formulas hold if those of one of them do. -/
theorem value_append (f : ConditionForm) (v : Valuation) (e e' : Formula) :
    value f v (e ++ e') = (value f v e || value f v e') :=
  List.any_append

/-- A formula of one alternative holds if all factors of that do. -/
theorem value_singleton (f : ConditionForm) (v : Valuation) (factors : List Atom) :
    value f v [factors] = factors.all (atomValue f v) := by
  simp [value]

/-! ## Reading one text behind another -/

namespace Lexer

variable {l l' : Lexer} {ts : List Token} {c : Char} {t u w : Text}

/-- The state with more tokens complete. -/
def behind (ts : List Token) (l : Lexer) : Lexer := ⟨ts ++ l.tokens, l.pending⟩

/-- Tokens that are complete do not matter to how a character starts a token. -/
theorem start_behind (ts us : List Token) (c : Char) :
    start (ts ++ us) c = (start us c).map (behind ts) := by
  unfold start
  by_cases h₁ : Text.isBlank c = true
  · rw [if_pos h₁, if_pos h₁]
    rfl
  rw [if_neg h₁, if_neg h₁]
  by_cases h₂ : isWordChar c = true
  · rw [if_pos h₂, if_pos h₂]
    rfl
  rw [if_neg h₂, if_neg h₂]
  by_cases h₃ : c = Quote.double.char
  · rw [if_pos h₃, if_pos h₃]
    rfl
  rw [if_neg h₃, if_neg h₃]
  by_cases h₄ : c = Quote.single.char
  · rw [if_pos h₄, if_pos h₄]
    rfl
  rw [if_neg h₄, if_neg h₄]
  by_cases h₅ : symbolChars.contains c = true
  · rw [if_pos h₅, if_pos h₅]
    rfl
  · rw [if_neg h₅, if_neg h₅]
    rfl

/-- Which tokens are complete does not matter to what comes next. -/
theorem step_behind (ts : List Token) (l : Lexer) (c : Char) :
    (l.behind ts).step c = (l.step c).map (behind ts) := by
  obtain ⟨us, pending⟩ := l
  cases pending with
  | nothing => exact start_behind ts us c
  | word t =>
    simp only [step, behind]
    by_cases h : isWordChar c = true
    · rw [if_pos h, if_pos h]
      rfl
    · rw [if_neg h, if_neg h, List.append_assoc]
      exact start_behind ts _ c
  | symbol d =>
    simp only [step, behind]
    by_cases h : symbolPairs.contains (d, c) = true
    · rw [if_pos h, if_pos h, List.append_assoc]
      rfl
    · rw [if_neg h, if_neg h, List.append_assoc]
      exact start_behind ts _ c
  | quoted q t escaped =>
    simp only [step, behind]
    by_cases h₁ : c = '\n'
    · rw [if_pos h₁, if_pos h₁]
      rfl
    rw [if_neg h₁, if_neg h₁]
    by_cases h₂ : escaped = true
    · rw [if_pos h₂, if_pos h₂]
      rfl
    rw [if_neg h₂, if_neg h₂]
    by_cases h₃ : c = q.char
    · rw [if_pos h₃, if_pos h₃, List.append_assoc]
      rfl
    · rw [if_neg h₃, if_neg h₃]
      rfl

/-- Tokens that are complete do not matter to how a text is read on. -/
theorem run_behind (ts : List Token) (l : Lexer) (t : Text) :
    (l.behind ts).run t = (l.run t).map (behind ts) := by
  induction t generalizing l with
  | nil => rfl
  | cons c t ih =>
    rw [run, run, List.foldlM_cons, List.foldlM_cons, step_behind]
    cases l.step c with
    | none => rfl
    | some l' => exact ih l'

/-- Tokens that are complete stay in front when the reading ends. -/
theorem finish_behind (ts : List Token) (l : Lexer) :
    (l.behind ts).finish = l.finish.map (ts ++ ·) := by
  obtain ⟨us, pending⟩ := l
  cases pending <;> simp [finish, behind]

/-- A text is read on where the text before it has been read. -/
theorem run_append (l : Lexer) (t u : Text) : l.run (t ++ u) = (l.run t).bind fun l' => l'.run u := by
  rw [run, List.foldlM_append]
  rfl

/-! ## White space between texts -/

/-- White space is no character of words. -/
theorem not_isWordChar_of_isBlank (h : Text.isBlank c = true) : isWordChar c = false := by
  cases hident : Text.isIdentChar c with
  | true =>
    rw [Text.not_isBlank_of_isIdentChar hident] at h
    exact absurd h (by decide)
  | false => simp [isWordChar, hident, h]

/-- White space completes what is being read. -/
theorem step_of_isBlank (hc : Text.isBlank c = true) (hl : l.finish = some ts) :
    l.step c = some ⟨ts, .nothing⟩ := by
  obtain ⟨us, pending⟩ := l
  have hstart : ∀ vs, start vs c = some ⟨vs, .nothing⟩ := fun vs => by rw [start, if_pos hc]
  cases pending with
  | nothing =>
    rw [finish, Option.some.injEq] at hl
    rw [← hl]
    exact hstart us
  | word t =>
    rw [finish, Option.some.injEq] at hl
    simp only [step]
    rw [if_neg (by simp [not_isWordChar_of_isBlank hc]), hl]
    exact hstart ts
  | symbol d =>
    rw [finish, Option.some.injEq] at hl
    -- no mark of two characters ends with white space
    have hpair : ¬ symbolPairs.contains (d, c) = true := by
      intro h
      have hall : ∀ p ∈ symbolPairs, Text.isBlank p.2 = false := by decide
      have := hall (d, c) (List.contains_iff_mem.mp h)
      simp [hc] at this
    simp only [step]
    rw [if_neg hpair, hl]
    exact hstart ts
  | quoted q t escaped => simp [finish] at hl

/-- White space does not end quotes. -/
theorem finish_of_run_isBlank (hw : ∀ c ∈ w, Text.isBlank c = true) (hl : l.finish = none)
    (h : l.run w = some l') : l'.finish = none := by
  induction w generalizing l with
  | nil =>
    have heq : l = l' := by simpa [run] using h
    rw [← heq]
    exact hl
  | cons c w ih =>
    obtain ⟨us, pending⟩ := l
    cases pending with
    | nothing => simp [finish] at hl
    | word t => simp [finish] at hl
    | symbol d => simp [finish] at hl
    | quoted q t escaped =>
      rw [run, List.foldlM_cons] at h
      -- only the quote ends the quotes, and it is no white space
      have hq : c ≠ q.char := by
        rintro rfl
        have hblank := hw q.char (by simp)
        cases q <;> exact absurd hblank (by decide)
      have hstep : ∀ l₁, step ⟨us, .quoted q t escaped⟩ c = some l₁ → l₁.finish = none := by
        intro l₁ h₁
        simp only [step] at h₁
        by_cases hn : c = '\n'
        · rw [if_pos hn] at h₁
          exact absurd h₁ (by simp)
        rw [if_neg hn] at h₁
        by_cases he : escaped = true
        · rw [if_pos he, Option.some.injEq] at h₁
          rw [← h₁]
          rfl
        · rw [if_neg he, if_neg hq, Option.some.injEq] at h₁
          rw [← h₁]
          rfl
      cases hc : step ⟨us, .quoted q t escaped⟩ c with
      | none =>
        rw [hc] at h
        exact absurd h (by simp)
      | some l₁ =>
        rw [hc] at h
        exact ih (fun d hd => hw d (List.mem_cons_of_mem _ hd)) (hstep l₁ hc) h

/-- White space at the end completes what is being read, if there is any. -/
theorem run_of_isBlank (hw : ∀ c ∈ w, Text.isBlank c = true) (hl : l.finish = some ts) :
    ∃ l', l.run w = some l' ∧ l'.finish = some ts := by
  induction w generalizing l with
  | nil => exact ⟨l, rfl, hl⟩
  | cons c w ih =>
    have hstep := step_of_isBlank (hw c (by simp)) hl
    obtain ⟨l', hrun, hfinish⟩ :=
      ih (l := ⟨ts, .nothing⟩) (fun d hd => hw d (List.mem_cons_of_mem _ hd)) rfl
    refine ⟨l', ?_, hfinish⟩
    rw [run, List.foldlM_cons, hstep]
    exact hrun

end Lexer

section

variable {f : ConditionForm} {ts : List Token} {t u w : Text} {n : Text} {ns : List Text}

/-- White space at the end of a text is no token. -/
theorem lex_append_blank (hw : ∀ c ∈ w, Text.isBlank c = true) :
    lex (t ++ w) = some ts ↔ lex t = some ts := by
  rw [lex, lex, Lexer.run_append]
  cases hrun : Lexer.init.run t with
  | none => simp
  | some l =>
    simp only [Option.bind_some]
    cases hl : l.finish with
    | some us =>
      obtain ⟨l', hrun', hfinish⟩ := Lexer.run_of_isBlank hw hl
      rw [hrun', Option.bind_some, hfinish]
    | none =>
      cases hrun' : l.run w with
      | none => simp
      | some l' => rw [Option.bind_some, Lexer.finish_of_run_isBlank hw hl hrun']

/-- What follows a text behind white space is read on its own. -/
theorem lex_append (ht : lex t = some ts) : lex (t ++ ' ' :: u) = (lex u).map (ts ++ ·) := by
  rw [lex] at ht ⊢
  rw [Lexer.run_append]
  cases hrun : Lexer.init.run t with
  | none =>
    rw [hrun] at ht
    exact absurd ht (by simp)
  | some l =>
    rw [hrun, Option.bind_some] at ht
    have hstep := Lexer.step_of_isBlank (c := ' ') (by decide) ht
    -- behind the space, reading starts anew with the tokens so far
    have hinit : (⟨ts, .nothing⟩ : Lexer) = Lexer.init.behind ts := by simp [Lexer.behind, Lexer.init]
    rw [Option.bind_some, Lexer.run, List.foldlM_cons, hstep, hinit]
    show ((Lexer.init.behind ts).run u).bind Lexer.finish = _
    rw [Lexer.run_behind, lex]
    cases Lexer.init.run u with
    | none => rfl
    | some l' => exact Lexer.finish_behind ts l'

/-! ## Checks -/

/-- The operator of a form as a token. -/
def operatorToken (f : ConditionForm) : Token := .symbol f.comparison.operator

/-- The connective of a form as a token. -/
def connectiveToken (f : ConditionForm) : Token :=
  match f.comparison with
  | .equal => orToken
  | .notEqual => andToken

/-- The check of a name as it is read, with the tokens `fs` for the field. -/
def checkAtom (f : ConditionForm) (fs : List Token) (n : Text) : Atom :=
  fs ++ [operatorToken f, .quoted .double n]

/-- **How a form is read**: its field as the tokens `fs`, which all belong to an atom, and a check
behind its connective as the connective, the field, the operator and an open quote. -/
structure ReadsAs (f : ConditionForm) (fs : List Token) : Prop where
  field : lex f.field = some fs
  check : Lexer.init.run (f.connective.tail ++ f.stem ++ "\"") =
    some ⟨connectiveToken f :: (fs ++ [operatorToken f]), .quoted .double [] false⟩
  plain : ∀ t ∈ fs ++ [operatorToken f], t ∉ markTokens

/-- A word between quotes is read character by character. -/
theorem run_quoted {us : List Token} (hn : n.IsWord) (m : Text) :
    (⟨us, .quoted .double m false⟩ : Lexer).run (n ++ "\"")
      = some ⟨us ++ [.quoted .double (m ++ n)], .nothing⟩ := by
  induction n generalizing m with
  | nil =>
    rw [List.append_nil]
    rfl
  | cons c n ih =>
    have hc := hn c (by simp)
    have hne : ∀ d, Text.isIdentChar d = false → c ≠ d := by
      rintro d hd rfl
      rw [hd] at hc
      exact absurd hc (by decide)
    have hescape : (c == '\\') = false := by simpa using hne '\\' (by decide)
    have hstep : Lexer.step ⟨us, .quoted .double m false⟩ c
        = some ⟨us, .quoted .double (m ++ [c]) false⟩ := by
      simp only [Lexer.step]
      rw [if_neg (hne '\n' (by decide)), if_neg (by decide), if_neg (hne _ (by decide)), hescape]
    rw [List.cons_append, Lexer.run, List.foldlM_cons, hstep]
    show (⟨us, .quoted .double (m ++ [c]) false⟩ : Lexer).run (n ++ "\"") = _
    rw [ih fun d hd => hn d (List.mem_cons_of_mem _ hd)]
    simp

/-- A check behind its connective is read as the connective and the check. -/
theorem lex_check {fs : List Token} (hf : ReadsAs f fs) (hn : n.IsWord) :
    lex (f.connective.tail ++ f.check n) = some (connectiveToken f :: checkAtom f fs n) := by
  have hcut : f.connective.tail ++ f.check n
      = (f.connective.tail ++ f.stem ++ "\"") ++ (n ++ "\"") := by
    rw [ConditionForm.check_eq]
    simp
  rw [hcut, lex, Lexer.run_append, hf.check, Option.bind_some, run_quoted hn]
  simp [Lexer.finish, checkAtom]

/-- The tokens of an extended condition. -/
theorem lex_extend {fs : List Token} (hf : ReadsAs f fs) (hns : ∀ n ∈ ns, n.IsWord)
    (ht : lex t = some ts) :
    lex (f.extend t ns)
      = some (ts ++ ns.flatMap fun n => connectiveToken f :: checkAtom f fs n) := by
  -- check by check: each one puts its tokens behind those of the condition so far
  induction ns generalizing t ts with
  | nil => simpa using ht
  | cons n ns ih =>
    obtain ⟨d, hconn, -⟩ := f.exists_connective
    have hcut : t ++ (f.connective ++ f.check n)
        = t ++ ' ' :: (f.connective.tail ++ f.check n) := by
      rw [hconn]
      rfl
    have hlex : lex (t ++ (f.connective ++ f.check n))
        = some (ts ++ connectiveToken f :: checkAtom f fs n) := by
      rw [hcut, lex_append ht, lex_check hf (hns n (by simp))]
      rfl
    rw [ConditionForm.extend_cons, ih (fun m hm => hns m (List.mem_cons_of_mem _ hm)) hlex,
      List.flatMap_cons, List.append_assoc]

/-! ## Parsing further checks -/

/-- The tokens of an atom are read into the atom. -/
theorem run_plain {p : Parser} {a : List Token} (hdepth : p.depth = 0)
    (ha : ∀ t ∈ a, t ∉ markTokens) : p.run a = some { p with atom := p.atom ++ a } := by
  induction a generalizing p with
  | nil =>
    rw [List.append_nil]
    rfl
  | cons t a ih =>
    have hmark := ha t (by simp)
    simp only [markTokens, List.mem_append, List.mem_cons, List.not_mem_nil, or_false,
      not_or] at hmark
    obtain ⟨⟨⟨⟨hcomment, hopen⟩, hclose⟩, hloose⟩, hor, hand⟩ := hmark
    have hstep : p.step t = some { p with atom := p.atom ++ [t] } := by
      rw [Parser.step, if_neg hcomment, if_neg hopen, if_neg hclose, if_neg (by simp [hdepth]),
        if_neg hloose, if_neg hor, if_neg hand]
      rfl
    rw [Parser.run, List.foldlM_cons, hstep]
    show Parser.run { p with atom := p.atom ++ [t] } a = _
    rw [ih (p := { p with atom := p.atom ++ [t] }) hdepth fun t' h =>
      ha t' (List.mem_cons_of_mem _ h)]
    simp

/-- The tokens of a check belong to an atom. -/
theorem not_mem_markTokens {fs : List Token} (hf : ReadsAs f fs) (n : Text) :
    ∀ t ∈ checkAtom f fs n, t ∉ markTokens := by
  -- no mark is a quoted text
  have hquoted : ∀ t ∈ markTokens, ∀ q m, t ≠ .quoted q m := by
    have hall : ∀ t ∈ markTokens, (match t with | .quoted _ _ => true | _ => false) = false := by
      decide
    rintro t ht q m rfl
    exact absurd (hall _ ht) (by simp)
  intro t ht hmark
  have hmem : t ∈ fs ++ [operatorToken f] ∨ t = .quoted .double n := by
    simpa [checkAtom, or_assoc] using ht
  rcases hmem with hmem | rfl
  · exact hf.plain t hmem hmark
  · exact hquoted _ hmark _ _ rfl

/-- The parser behind a connective and a check. -/
theorem run_connective_check {fs : List Token} (hf : ReadsAs f fs) {p : Parser}
    (hdepth : p.depth = 0) (hatom : p.atom ≠ []) (n : Text) :
    p.run (connectiveToken f :: checkAtom f fs n) =
      some (match f.comparison with
        | .equal => ⟨p.alternatives ++ [p.factors ++ [p.atom]], [], checkAtom f fs n, 0⟩
        | .notEqual => ⟨p.alternatives, p.factors ++ [p.atom], checkAtom f fs n, 0⟩) := by
  obtain ⟨alternatives, factors, atom, depth⟩ := p
  simp only at hdepth hatom
  subst hdepth
  rw [Parser.run, List.foldlM_cons, connectiveToken]
  cases f.comparison with
  | equal =>
    have hstep : Parser.step ⟨alternatives, factors, atom, 0⟩ orToken
        = some ⟨alternatives ++ [factors ++ [atom]], [], [], 0⟩ := by
      rw [Parser.step, if_neg (by decide), if_neg (by decide), if_neg (by decide),
        if_neg (fun h => h rfl), if_neg (by decide), if_pos rfl, if_neg hatom]
    rw [hstep]
    exact run_plain rfl (not_mem_markTokens hf n)
  | notEqual =>
    have hstep : Parser.step ⟨alternatives, factors, atom, 0⟩ andToken
        = some ⟨alternatives, factors ++ [atom], [], 0⟩ := by
      rw [Parser.step, if_neg (by decide), if_neg (by decide), if_neg (by decide),
        if_neg (fun h => h rfl), if_neg (by decide), if_neg (by decide), if_pos rfl, if_neg hatom]
    rw [hstep]
    exact run_plain rfl (not_mem_markTokens hf n)

/-- **Further checks, parsed**: further alternatives where they are joined by `||`, and further
factors of the last alternative where they are joined by `&&`. -/
def extended (f : ConditionForm) (fs : List Token) (earlier : Formula) (last : List Atom)
    (ns : List Text) : Formula :=
  match f.comparison with
  | .equal => earlier ++ [last] ++ ns.map fun n => [checkAtom f fs n]
  | .notEqual => earlier ++ [last ++ ns.map (checkAtom f fs)]

/-- **Checks behind an atom are parsed** as further alternatives, or as further factors of the last
one. -/
theorem finish_run_checks {fs : List Token} (hf : ReadsAs f fs) {p : Parser}
    (hdepth : p.depth = 0) (hatom : p.atom ≠ []) (ns : List Text) :
    (p.run (ns.flatMap fun n => connectiveToken f :: checkAtom f fs n)).bind Parser.finish
      = some (extended f fs p.alternatives (p.factors ++ [p.atom]) ns) := by
  have hcheck : ∀ n, checkAtom f fs n ≠ [] := fun n => by simp [checkAtom]
  induction ns generalizing p with
  | nil =>
    show p.finish = _
    rw [Parser.finish, if_pos ⟨hdepth, hatom⟩, extended]
    cases f.comparison <;> simp
  | cons n ns ih =>
    -- the atom before the connective is complete, and the check is the next one
    rw [List.flatMap_cons, Parser.run, List.foldlM_append]
    have hstep := run_connective_check hf hdepth hatom n
    rw [Parser.run] at hstep
    rw [hstep]
    show (Parser.run _ _).bind Parser.finish = _
    cases hcomparison : f.comparison with
    | equal =>
      simp only at ih ⊢
      rw [ih rfl (hcheck n)]
      simp [extended, hcomparison]
    | notEqual =>
      simp only at ih ⊢
      rw [ih rfl (hcheck n)]
      simp [extended, hcomparison]

/-- **Checks put behind a condition are read as further checks.** -/
theorem read_extend {fs : List Token} (hf : ReadsAs f fs) (hns : ∀ n ∈ ns, n.IsWord)
    {e : Formula} (ht : read t = some e) :
    ∃ earlier last, e = earlier ++ [last] ∧
      read (f.extend t ns) = some (extended f fs earlier last ns) := by
  cases hlex : lex t with
  | none => simp [read, hlex] at ht
  | some ts =>
    rw [read, hlex, Option.bind_some, parse] at ht
    cases hrun : Parser.init.run ts with
    | none => simp [hrun] at ht
    | some p =>
      rw [hrun, Option.bind_some, Parser.finish] at ht
      by_cases hp : p.depth = 0 ∧ p.atom ≠ []
      · rw [if_pos hp, Option.some.injEq] at ht
        refine ⟨p.alternatives, p.factors ++ [p.atom], ht.symm, ?_⟩
        rw [read, lex_extend hf hns hlex, Option.bind_some, parse, Parser.run, List.foldlM_append]
        rw [Parser.run] at hrun
        rw [hrun]
        exact finish_run_checks hf hp.1 hp.2 ns
      · rw [if_neg hp] at ht
        exact absurd ht (by simp)

/-- White space at its end does not change how a condition is read. -/
theorem read_append_blank (hw : ∀ c ∈ w, Text.isBlank c = true) : read (t ++ w) = read t := by
  have hlex : lex (t ++ w) = lex t := by
    cases h : lex t with
    | some ts => exact (lex_append_blank hw).mpr h
    | none =>
      cases h' : lex (t ++ w) with
      | none => rfl
      | some ts =>
        rw [(lex_append_blank hw).mp h'] at h
        exact absurd h (by simp)
  rw [read, read, hlex]

/-- The blank end of another text does not matter to what is read. -/
theorem read_append_blankEnd (t u : Text) : read (t ++ u.blankEnd) = read t :=
  read_append_blank fun _ => Text.blank_of_mem_blankEnd _

/-- A condition is read alike without the white space at its end. -/
theorem read_trimEnd (t : Text) : read t.trimEnd = read t := by
  rw [← read_append_blankEnd t.trimEnd t, Text.trimEnd_append_blankEnd]

/-! ## The value of further checks -/

/-- A check has the value that it is meant to have. -/
theorem atomValue_checkAtom {fs : List Token} (hf : ReadsAs f fs) (hn : n.IsWord)
    (v : Valuation) :
    atomValue f v (checkAtom f fs n) =
      match f.comparison with
      | .equal => v.called == n
      | .notEqual => v.called != n := by
  have hescape : n.contains '\\' = false := by
    cases h : n.contains '\\' with
    | false => rfl
    | true => exact absurd (hn _ (List.contains_iff_mem.mp h)) (by decide)
  have hstarts : fs.isPrefixOf (checkAtom f fs n) = true :=
    List.isPrefixOf_iff_prefix.mpr (List.prefix_append _ _)
  have hdrop : (checkAtom f fs n).drop fs.length = [operatorToken f, .quoted .double n] := by
    rw [checkAtom, List.drop_left]
  have hcomparison : comparison? f (checkAtom f fs n) = some (f.comparison, n) := by
    rw [comparison?, hf.field]
    simp only [hstarts, if_true, hdrop, operatorToken, hescape, Bool.false_eq_true, if_false]
    cases f.comparison <;> rfl
  rw [atomValue, hcomparison]
  cases f.comparison <;> rfl

/-- The value of a condition with further checks. -/
theorem value_extended {fs : List Token} (hf : ReadsAs f fs) (hns : ∀ n ∈ ns, n.IsWord)
    (v : Valuation) (earlier : Formula) (last : List Atom) :
    value f v (extended f fs earlier last ns) =
      match f.comparison with
      | .equal => value f v (earlier ++ [last]) || ns.contains v.called
      | .notEqual => value f v earlier || (last.all (atomValue f v) && !ns.contains v.called) := by
  have hchecks := fun n hn => atomValue_checkAtom hf (hns n hn) v
  rw [extended]
  cases hcomparison : f.comparison with
  | equal =>
    simp only [hcomparison] at hchecks ⊢
    have hany : value f v (ns.map fun n => [checkAtom f fs n]) = ns.contains v.called := by
      rw [value, Bool.eq_iff_iff, List.any_map, List.any_eq_true, List.contains_iff_mem]
      constructor
      · rintro ⟨n, hn, h⟩
        simp only [Function.comp_apply, List.all_cons, List.all_nil, Bool.and_true, hchecks n hn,
          beq_iff_eq] at h
        exact h ▸ hn
      · intro h
        refine ⟨v.called, h, ?_⟩
        simp [hchecks v.called h]
    rw [value_append, hany]
  | notEqual =>
    simp only [hcomparison] at hchecks ⊢
    have hall : (ns.map (checkAtom f fs)).all (atomValue f v) = !ns.contains v.called := by
      rw [Bool.eq_iff_iff, List.all_map, List.all_eq_true, Bool.not_eq_true', ← Bool.not_eq_true,
        List.contains_iff_mem]
      constructor
      · intro h hmem
        have hcalled := h v.called hmem
        simp [hchecks v.called hmem] at hcalled
      · intro h n hn
        have hne : v.called ≠ n := fun heq => h (heq ▸ hn)
        simp [hchecks n hn, hne]
    rw [value_append, value_singleton, List.all_append, hall]

end

end SitePatch.Cpp
