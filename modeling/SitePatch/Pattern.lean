import SitePatch.Text.Word

/-! # Patterns — sequences of fixed words, runs and gaps

A pattern is read from left to right. Each atom either takes a definite piece from the front of the
text or refuses: a literal takes itself, a run takes all the characters of its class that stand
there. Nothing is ever given back, and nothing has to be: in every pattern of the library what
follows a run cannot start with a character of that run, so the longest run is the only one that
lets the rest match. Main statement: what a pattern takes, followed by what it leaves, is the text
(`Pattern.eq_append_of_take?`). -/

namespace SitePatch

/-! ## Character classes -/

/-- A class of characters. -/
inductive CharClass
  /-- White space, line breaks included. -/
  | blank
  /-- The characters of the list. -/
  | oneOf (cs : List Char)
  /-- All characters but those of the list. -/
  | noneOf (cs : List Char)
deriving DecidableEq

/-- Whether the character belongs to the class. -/
def CharClass.has : CharClass → Char → Bool
  | blank, c => Text.isBlank c
  | oneOf cs, c => cs.contains c
  | noneOf cs, c => !cs.contains c

/-! ## Atoms -/

/-- **What a pattern is made of.** -/
inductive Atom
  /-- The text itself. -/
  | lit (word : Text)
  /-- All the characters of the class that stand here, of which there have to be `atLeast`. -/
  | run (cls : CharClass) (atLeast : Nat)
  /-- All the white space that stands here, which has to hold a line break. -/
  | lineGap
  /-- The end of a word: no word character follows. Nothing is taken. -/
  | wordEnd
deriving DecidableEq

/-- What follows `word` in the text, if the text starts with it. -/
def Text.after? : (word : Text) → Text → Option Text
  | [], t => some t
  | _ :: _, [] => none
  | w :: ws, c :: cs => if w = c then after? ws cs else none

/-- The rest after a word is what, put behind the word, gives the text. -/
theorem Text.after?_eq_some_iff {word t rest : Text} :
    Text.after? word t = some rest ↔ t = word ++ rest := by
  induction word generalizing t with
  | nil => simp [Text.after?]
  | cons w ws ih =>
    cases t with
    | nil => simp [Text.after?]
    | cons c cs =>
      by_cases h : w = c
      · subst h; simp [Text.after?, ih]
      · simp [Text.after?, h, Ne.symm h]

/-- What the atom takes from the front of the text, and what it leaves. -/
def Atom.take? : Atom → Text → Option (Text × Text)
  | lit word, t => (Text.after? word t).map fun rest => (word, rest)
  | run cls atLeast, t =>
    if atLeast ≤ (t.takeWhile cls.has).length then some (t.takeWhile cls.has, t.dropWhile cls.has)
    else none
  | lineGap, t =>
    if (t.takeWhile Text.isBlank).contains '\n' then
      some (t.takeWhile Text.isBlank, t.dropWhile Text.isBlank)
    else none
  | wordEnd, [] => some ([], [])
  | wordEnd, c :: cs => if Text.isWordChar c then none else some ([], c :: cs)

/-- An atom loses nothing. -/
theorem Atom.eq_append_of_take? {a : Atom} {t taken rest : Text}
    (h : a.take? t = some (taken, rest)) : t = taken ++ rest := by
  cases a with
  | lit word =>
    simp only [take?, Option.map_eq_some_iff, Prod.mk.injEq] at h
    obtain ⟨_, h, rfl, rfl⟩ := h
    exact Text.after?_eq_some_iff.mp h
  | run cls n =>
    simp only [take?] at h
    split at h
    · simp only [Option.some.injEq, Prod.mk.injEq] at h
      obtain ⟨rfl, rfl⟩ := h
      exact (List.takeWhile_append_dropWhile).symm
    · simp at h
  | lineGap =>
    simp only [take?] at h
    split at h
    · simp only [Option.some.injEq, Prod.mk.injEq] at h
      obtain ⟨rfl, rfl⟩ := h
      exact (List.takeWhile_append_dropWhile).symm
    · simp at h
  | wordEnd =>
    cases t with
    | nil => simp_all [take?]
    | cons c cs =>
      simp only [take?] at h
      split at h <;> simp_all

/-! ## Patterns -/

/-- A step of a pattern: an atom, or a sequence of atoms repeated as often as it goes. -/
inductive Piece
  | atom (a : Atom)
  /-- One or more rounds of the sequence. -/
  | rounds (as : List Atom)
deriving DecidableEq

/-- **A pattern**: pieces, one after the other. -/
abbrev Pattern := List Piece

/-- What a sequence of atoms takes, and what it leaves. -/
def Atom.takeAll? : List Atom → Text → Option (Text × Text)
  | [], t => some ([], t)
  | a :: as, t =>
    match a.take? t with
    | none => none
    | some (taken, rest) =>
      match takeAll? as rest with
      | none => none
      | some (more, rest') => some (taken ++ more, rest')

/-- What further rounds of the sequence take, `most` of them at the most. -/
def Atom.takeRounds (as : List Atom) : (most : Nat) → Text → Text × Text
  | 0, t => ([], t)
  | most + 1, t =>
    match takeAll? as t with
    | none => ([], t)
    | some (taken, rest) =>
      let (more, rest') := takeRounds as most rest
      (taken ++ more, rest')

/-- What a piece takes, and what it leaves. A text of `n` characters has room for `n` rounds. -/
def Piece.take? : Piece → Text → Option (Text × Text)
  | atom a, t => a.take? t
  | rounds as, t =>
    match Atom.takeAll? as t with
    | none => none
    | some (taken, rest) =>
      let (more, rest') := Atom.takeRounds as t.length rest
      some (taken ++ more, rest')

/-- What a pattern takes from the front of the text, and what it leaves. -/
def Pattern.take? : Pattern → Text → Option (Text × Text)
  | [], t => some ([], t)
  | p :: ps, t =>
    match p.take? t with
    | none => none
    | some (taken, rest) =>
      match Pattern.take? ps rest with
      | none => none
      | some (more, rest') => some (taken ++ more, rest')

/-- What atoms take and what they leave make up the text. -/
theorem Atom.eq_append_of_takeAll? {as : List Atom} {t taken rest : Text}
    (h : Atom.takeAll? as t = some (taken, rest)) : t = taken ++ rest := by
  induction as generalizing t taken with
  | nil => simp_all [takeAll?]
  | cons a as ih =>
    rw [takeAll?] at h
    split at h
    · simp at h
    · rename_i hfirst
      split at h
      · simp at h
      · rename_i hmore
        simp only [Option.some.injEq, Prod.mk.injEq] at h
        obtain ⟨rfl, rfl⟩ := h
        rw [Atom.eq_append_of_take? hfirst, ih hmore, List.append_assoc]

/-- What rounds take and what they leave make up the text. -/
theorem Atom.takeRounds_append (as : List Atom) (most : Nat) (t : Text) :
    t = (Atom.takeRounds as most t).1 ++ (Atom.takeRounds as most t).2 := by
  induction most generalizing t with
  | zero => simp [takeRounds]
  | succ most ih =>
    rw [takeRounds]
    split
    · simp
    · rename_i rest h
      simp only [List.append_assoc]
      rw [← ih rest]
      exact Atom.eq_append_of_takeAll? h

/-- What a piece takes and what it leaves make up the text. -/
theorem Piece.eq_append_of_take? {p : Piece} {t taken rest : Text}
    (h : p.take? t = some (taken, rest)) : t = taken ++ rest := by
  cases p with
  | atom a => exact Atom.eq_append_of_take? h
  | rounds as =>
    simp only [take?] at h
    split at h
    · simp at h
    · rename_i first hfirst
      simp only [Option.some.injEq, Prod.mk.injEq] at h
      obtain ⟨rfl, rfl⟩ := h
      rw [List.append_assoc, ← Atom.takeRounds_append]
      exact Atom.eq_append_of_takeAll? hfirst

/-- A pattern loses nothing. -/
theorem Pattern.eq_append_of_take? {p : Pattern} {t taken rest : Text}
    (h : p.take? t = some (taken, rest)) : t = taken ++ rest := by
  induction p generalizing t taken with
  | nil => simp_all [take?]
  | cons a as ih =>
    rw [take?] at h
    split at h
    · simp at h
    · rename_i hfirst
      split at h
      · simp at h
      · rename_i hmore
        simp only [Option.some.injEq, Prod.mk.injEq] at h
        obtain ⟨rfl, rfl⟩ := h
        rw [Piece.eq_append_of_take? hfirst, ih hmore, List.append_assoc]

/-! ## Writing patterns -/

namespace Pattern

/-- The text itself. -/
def word (t : Text) : Pattern := [.atom (.lit t)]

/-- White space, or none. -/
def gap : Pattern := [.atom (.run .blank 0)]

/-- White space, at least one character of it. -/
def space : Pattern := [.atom (.run .blank 1)]

/-- White space with a line break in it. -/
def lineGap : Pattern := [.atom .lineGap]

/-- The spaces and tabs at the start of a line. -/
def indent : Pattern := [.atom (.run (.oneOf [' ', '\t']) 0)]

/-- Words with a gap between any two of them. -/
def spaced : List Text → Pattern
  | [] => []
  | [w] => word w
  | w :: ws => word w ++ gap ++ spaced ws

end Pattern

end SitePatch
