import SitePatch.Pattern

/-! # Shapes — regions of a text, line by line

A `Shape` describes a region that starts at the beginning of a line and has one part of interest,
its *marked* part: the indentation of a region that is to be rewritten, or the condition of a region
that is to be extended. `Shape.occurrences` finds the regions of a text from left to right, each
search going on where the last region ended. Main statement: an occurrence and the text around it
make up the text (`Shape.text_of_mem_occurrences`). -/

namespace SitePatch

/-- What the marked part of a shape is. -/
inductive Mark
  /-- The indentation of the region's first line. -/
  | indent
  /-- The condition that the region evaluates. -/
  | condition
deriving DecidableEq, Repr

/-- **A shape**: what comes before the marked part, the marked part, and what comes after it. -/
structure Shape where
  lead : Pattern
  mark : Mark
  marked : Pattern
  tail : Pattern
deriving DecidableEq

/-- **A region found in a text**: the text before it, its three parts, and the text after it. -/
structure Occurrence where
  before : Text
  lead : Text
  marked : Text
  tail : Text
  after : Text
deriving DecidableEq

namespace Occurrence

/-- The whole region. -/
def region (o : Occurrence) : Text := o.lead ++ o.marked ++ o.tail

/-- The text in which the region was found. -/
def text (o : Occurrence) : Text := o.before ++ o.region ++ o.after

/-- The byte offset at which the region starts. -/
def start (o : Occurrence) : Nat := o.before.byteSize

/-- The byte offset at which the region ends. -/
def stop (o : Occurrence) : Nat := o.start + o.region.byteSize

/-- The byte offset at which the marked part starts. -/
def markedStart (o : Occurrence) : Nat := o.start + o.lead.byteSize

end Occurrence

namespace Shape

/-- The region that starts here, after the characters `seen` (last one first). -/
def here? (s : Shape) (seen rest : Text) : Option Occurrence :=
  match s.lead.take? rest with
  | none => none
  | some (lead, rest₁) =>
    match s.marked.take? rest₁ with
    | none => none
    | some (marked, rest₂) =>
      match s.tail.take? rest₂ with
      | none => none
      | some (tail, after) => some ⟨seen.reverse, lead, marked, tail, after⟩

/-- Whether a line starts after the characters `seen` (last one first). -/
def atLineStart (seen : Text) : Bool :=
  match seen with
  | [] => true
  | c :: _ => c == '\n'

/-- The region that starts here, if a line starts here too. -/
def atLine? (s : Shape) (seen rest : Text) : Option Occurrence :=
  if atLineStart seen then s.here? seen rest else none

/-- The regions from here on. The next `skip` characters belong to the region found last. -/
def scan (s : Shape) (seen : Text) : (skip : Nat) → (rest : Text) → List Occurrence
  | 0, [] => (s.atLine? seen []).toList
  | _ + 1, [] => []
  | skip + 1, c :: cs => scan s (c :: seen) skip cs
  | 0, c :: cs =>
    match s.atLine? seen (c :: cs) with
    | none => scan s (c :: seen) 0 cs
    -- the region's first character is `c`, so one less is left to skip
    | some o => o :: scan s (c :: seen) (o.region.length - 1) cs

/-- The regions of the text, from left to right, none overlapping another. -/
def occurrences (s : Shape) (t : Text) : List Occurrence := s.scan [] 0 t

/-- The text of a region that starts here is what was seen and what is left. -/
theorem text_of_here? {s : Shape} {seen rest : Text} {o : Occurrence}
    (h : s.here? seen rest = some o) : o.text = seen.reverse ++ rest := by
  rw [here?] at h
  split at h
  · simp at h
  · rename_i h₁
    split at h
    · simp at h
    · rename_i h₂
      split at h
      · simp at h
      · rename_i h₃
        simp only [Option.some.injEq] at h
        subst h
        rw [Pattern.eq_append_of_take? h₁, Pattern.eq_append_of_take? h₂,
          Pattern.eq_append_of_take? h₃]
        simp [Occurrence.text, Occurrence.region]

/-- The text of a region that starts here with a line is what was seen and what is left. -/
theorem text_of_atLine? {s : Shape} {seen rest : Text} {o : Occurrence}
    (h : s.atLine? seen rest = some o) : o.text = seen.reverse ++ rest := by
  rw [atLine?] at h
  split at h
  · exact text_of_here? h
  · simp at h

/-- The text of every region that is found from here on is what was seen and what is left. -/
theorem text_of_mem_scan {s : Shape} {seen rest : Text} {skip : Nat} {o : Occurrence}
    (h : o ∈ s.scan seen skip rest) : o.text = seen.reverse ++ rest := by
  induction rest generalizing seen skip with
  | nil =>
    cases skip with
    | zero =>
      simp only [scan, Option.mem_toList] at h
      exact text_of_atLine? h
    | succ skip => simp [scan] at h
  | cons c cs ih =>
    cases skip with
    | succ skip =>
      rw [scan] at h
      simpa using ih h
    | zero =>
      rw [scan] at h
      split at h
      · simpa using ih h
      · rename_i hfound
        rcases List.mem_cons.mp h with rfl | h
        · exact text_of_atLine? hfound
        · simpa using ih h

/-- An occurrence and the text around it make up the text. -/
theorem text_of_mem_occurrences {s : Shape} {t : Text} {o : Occurrence}
    (h : o ∈ s.occurrences t) : o.text = t := by
  simpa using text_of_mem_scan h

end Shape

end SitePatch
