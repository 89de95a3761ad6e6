import SitePatch.Text

/-! # Line differences

A `LineDiff` says which lines of a text were replaced by which: the lines that both texts share at
their start and at their end are left out, and all that remains counts as removed or added. For two
texts that differ in one place this is a smallest difference. Where the added lines may stand in
several places they stand in the lowest (`LineDiff.lower`). Main statements: nothing is lost by
taking a text apart into lines (`Text.flatten_lines`), and a difference tells the texts apart only
where it says so (`LineDiff.exists_around`). -/

namespace SitePatch

/-! ## Lines -/

namespace Text

/-- Whether the character ends a line. -/
def endsLine (c : Char) : Bool := c == '\n' || c == '\r'

/-- The lines of a text, each with the characters that end it: a line feed, a carriage return, or
both in turn. The last line may lack them. -/
def lines : Text → List Text
  | [] => []
  | '\r' :: '\n' :: cs => ['\r', '\n'] :: lines cs
  | c :: cs =>
    if endsLine c then [c] :: lines cs
    else match lines cs with
      | [] => [[c]]
      | line :: rest => (c :: line) :: rest

/-- The lines make up the text. -/
@[simp] theorem flatten_lines (t : Text) : t.lines.flatten = t := by
  fun_induction lines t with
  | case1 => rfl
  | case2 cs ih => simp [ih]
  | case3 c cs _ _ ih => simp [ih]
  | case4 c cs _ _ h ih =>
    rw [h] at ih
    simpa using ih
  | case5 c cs _ _ line rest h ih =>
    rw [h] at ih
    simpa using ih

/-- The line with a line feed, unless it already ends as lines do. -/
def closeLine (line : Text) : Text :=
  if (line.getLast?.map endsLine).getD false then line else line ++ ['\n']

end Text

/-! ## Differences -/

/-- **A line difference**: the lines that went, and the lines that came in their place. -/
structure LineDiff where
  removed : List Text
  added : List Text
deriving DecidableEq

namespace LineDiff

/-- Two lists of lines without the lines that both start with. -/
def dropShared : List Text → List Text → List Text × List Text
  | a :: as, b :: bs => if a = b then dropShared as bs else (a :: as, b :: bs)
  | as, bs => (as, bs)

/-- The lines that are added above others, moved down as far as they go: while the line below them
equals their first one, that first line may as well be the one that was kept. -/
def lower : (added below : List Text) → List Text
  | a :: as, b :: bs => if a = b then lower (as ++ [a]) bs else a :: as
  | added, _ => added

/-- **The difference** of two texts. -/
def between (old new : Text) : LineDiff :=
  -- first what both start with, then what both end with
  let tails := dropShared old.lines new.lines
  let middles := dropShared tails.1.reverse tails.2.reverse
  let below := tails.1.drop middles.1.length
  ⟨middles.1.reverse, lower middles.2.reverse below⟩

/-- What is dropped is the same in both lists. -/
theorem exists_dropShared (as bs : List Text) :
    ∃ shared, as = shared ++ (dropShared as bs).1 ∧ bs = shared ++ (dropShared as bs).2 := by
  fun_induction dropShared as bs with
  | case1 as b bs ih =>
    obtain ⟨shared, ha, hb⟩ := ih
    exact ⟨b :: shared, by rw [List.cons_append, ← ha], by rw [List.cons_append, ← hb]⟩
  | case2 a as b bs _ => exact ⟨[], rfl, rfl⟩
  | case3 as bs _ => exact ⟨[], rfl, rfl⟩

/-- Moving added lines down leaves the whole as it is: some of the lines below are now above. -/
theorem exists_lower (added below : List Text) :
    ∃ kept after, below = kept ++ after ∧ added ++ below = kept ++ lower added below ++ after := by
  fun_induction lower added below with
  | case1 as b bs ih =>
    obtain ⟨kept, after, hbelow, hadded⟩ := ih
    refine ⟨b :: kept, after, by rw [hbelow, List.cons_append], ?_⟩
    simpa using hadded
  | case2 a as b bs _ => exact ⟨[], b :: bs, rfl, rfl⟩
  | case3 added below _ => exact ⟨[], below, rfl, rfl⟩

/-- **Around a difference the texts agree.** Between the removed and the added lines there may be
lines that were kept. -/
theorem exists_around (old new : Text) :
    ∃ before kept after,
      old.lines = before ++ (between old new).removed ++ kept ++ after ∧
        new.lines = before ++ kept ++ (between old new).added ++ after := by
  obtain ⟨before, hold, hnew⟩ := exists_dropShared old.lines new.lines
  rcases htails : dropShared old.lines new.lines with ⟨o, n⟩
  obtain ⟨shared, ho, hn⟩ := exists_dropShared o.reverse n.reverse
  rcases hmiddles : dropShared o.reverse n.reverse with ⟨removed, added⟩
  rw [htails] at hold hnew
  rw [hmiddles] at ho hn
  have ho' : o = removed.reverse ++ shared.reverse := by
    rw [← List.reverse_append, ← ho, List.reverse_reverse]
  have hn' : n = added.reverse ++ shared.reverse := by
    rw [← List.reverse_append, ← hn, List.reverse_reverse]
  have hbelow : o.drop removed.length = shared.reverse := by
    rw [ho', ← List.length_reverse, List.drop_left]
  obtain ⟨kept, after, hkept, hadded⟩ := exists_lower added.reverse shared.reverse
  refine ⟨before, kept, after, ?_, ?_⟩
  · simp only [between, htails, hmiddles]
    rw [hold, ho', hkept]
    simp only [List.append_assoc]
  · simp only [between, htails, hmiddles, hbelow]
    rw [hnew, hn', hadded]
    simp only [List.append_assoc]

/-- A text does not differ from itself. -/
@[simp] theorem between_self (t : Text) : between t t = ⟨[], []⟩ := by
  have h : ∀ ls : List Text, dropShared ls ls = ([], []) := by
    intro ls
    induction ls with
    | nil => rfl
    | cons l ls ih => simp [dropShared, ih]
  simp [between, h, lower]

end LineDiff

end SitePatch
