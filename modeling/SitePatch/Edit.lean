import SitePatch.FileError
import SitePatch.Text.Utf8
import SitePatch.Xxh3

/-! # Edits — verified replacements of one stretch of a text

An `Edit` replaces the bytes from `start` to `stop` of one file by a new text, provided that they
still hold what was there when the edit was planned, or already hold the new text. Main statements:
an edit whose stretch is found changes that stretch and nothing else (`applyTo_eq_ok_iff`), and an
edit planned on a stretch of a text applies to that text (`applyTo_replace`). -/

namespace SitePatch

/-! ## Verification -/

/-- **What the stretch has to hold** before it is replaced. -/
inductive Verification
  /-- Exactly this text. -/
  | exact (text : Text)
  /-- Some text with this digest. -/
  | digest (hash : UInt64)
deriving DecidableEq

namespace Verification

/-- The digest of a text. -/
def digestOf (t : Text) : UInt64 := Xxh3.digest (Utf8.encode t)

/-- The longest text, in bytes, that is kept as it is. -/
def exactLimit : Nat := 1024

/-- The verification that a text passes: the text itself if it is short, else its digest. -/
def ofText (t : Text) : Verification :=
  if exactLimit < t.byteSize then .digest (digestOf t) else .exact t

/-- Whether the text passes. -/
def accepts : Verification → Text → Bool
  | exact expected, t => t == expected
  | digest hash, t => digestOf t == hash

/-- A text passes its own verification. -/
@[simp] theorem accepts_ofText (t : Text) : (ofText t).accepts t = true := by
  rw [ofText]
  split <;> simp [accepts]

end Verification

/-! ## Edits -/

/-- **An edit** of one file. Offsets count bytes, and `stop` is the first byte that stays. -/
structure Edit where
  file : Text
  start : Nat
  stop : Nat
  newText : Text
  expected : Verification
deriving DecidableEq

/-- Why an edit does not apply. -/
inductive EditError
  /-- The stretch holds something else than it should. -/
  | mismatch (file : Text) (start stop : Nat) (found : Text)
  /-- The offsets do not delimit a stretch of the text, which has `length` bytes. -/
  | badRange (start stop length : Nat)
  /-- The file cannot be read or replaced. -/
  | io (cause : FileError)
  /-- The file does not hold text. -/
  | notText (fault : Utf8.Fault)
deriving DecidableEq

/-- The wording of an edit error. -/
def EditError.message : EditError → Text
  | mismatch file start _ _ =>
    "before-text verification failed at " ++ file ++ ":" ++ Text.ofNat start
      ++ " (file changed since it was read)"
  | badRange start stop length =>
    "invalid byte range [" ++ Text.ofNat start ++ ", " ++ Text.ofNat stop ++ ") in file of length "
      ++ Text.ofNat length
  | io cause => "file I/O error: " ++ cause.message
  | notText fault => "UTF-8 validation error: " ++ fault.message

namespace Edit

/-- The edit of a stretch that holds `old`. -/
def replacing (file : Text) (start : Nat) (old newText : Text) : Edit :=
  ⟨file, start, start + old.byteSize, newText, .ofText old⟩

/-- **A text cut around a stretch.** -/
structure Cut where
  before : Text
  stretch : Text
  after : Text
deriving DecidableEq

/-- The text cut around the stretch of the edit, if the offsets are in order, inside the text, and
between characters. -/
def cut? (e : Edit) (content : Text) : Option Cut :=
  if e.start ≤ e.stop then
    match content.splitAtByte? e.start with
    | none => none
    | some (before, rest) =>
      match rest.splitAtByte? (e.stop - e.start) with
      | none => none
      | some (stretch, after) => some ⟨before, stretch, after⟩
  else none

/-- The text cut around the stretch, which has to hold the new text or what is expected there. -/
def verify (e : Edit) (content : Text) : Except EditError Cut :=
  match e.cut? content with
  | none => .error (.badRange e.start e.stop content.byteSize)
  | some c =>
    if c.stretch = e.newText ∨ e.expected.accepts c.stretch = true then .ok c
    else .error (.mismatch e.file e.start e.stop c.stretch)

/-- The text after the edit. -/
def applyTo (e : Edit) (content : Text) : Except EditError Text :=
  match e.verify content with
  | .error err => .error err
  | .ok c => .ok (c.before ++ e.newText ++ c.after)

/-- What a text is cut into makes up the text, and the offsets are where it is cut. -/
theorem eq_of_cut? {e : Edit} {content : Text} {c : Cut} (h : e.cut? content = some c) :
    content = c.before ++ c.stretch ++ c.after ∧ e.start = c.before.byteSize ∧
      e.stop = c.before.byteSize + c.stretch.byteSize := by
  rw [cut?] at h
  split at h
  · split at h
    · simp at h
    · rename_i hle _ before rest h₁
      split at h
      · simp at h
      · rename_i stretch after h₂
        simp only [Option.some.injEq] at h
        subst h
        obtain ⟨rfl, hb⟩ := Text.eq_append_of_splitAtByte? h₁
        obtain ⟨rfl, hs⟩ := Text.eq_append_of_splitAtByte? h₂
        refine ⟨by simp, hb.symm, ?_⟩
        simp only [hb, hs]
        omega
  · simp at h

/-- A text is cut at the offsets between its parts. -/
theorem cut?_append {e : Edit} {before stretch after : Text} (hstart : e.start = before.byteSize)
    (hstop : e.stop = before.byteSize + stretch.byteSize) :
    e.cut? (before ++ stretch ++ after) = some ⟨before, stretch, after⟩ := by
  simp [cut?, hstart, hstop, List.append_assoc]

/-- When an edit applies, and to what effect. -/
theorem applyTo_eq_ok_iff {e : Edit} {content result : Text} :
    e.applyTo content = .ok result ↔
      ∃ c, e.cut? content = some c ∧
        (c.stretch = e.newText ∨ e.expected.accepts c.stretch = true) ∧
        result = c.before ++ e.newText ++ c.after := by
  rw [applyTo, verify]
  cases e.cut? content with
  | none => simp
  | some c =>
    by_cases hv : c.stretch = e.newText ∨ e.expected.accepts c.stretch = true
    · simp only [if_pos hv, Except.ok.injEq, Option.some.injEq]
      exact ⟨fun h => ⟨c, rfl, hv, h.symm⟩, fun ⟨_, h, _, hr⟩ => by rw [hr, h]⟩
    · simp only [if_neg hv, reduceCtorEq, Option.some.injEq, false_iff]
      rintro ⟨_, rfl, hv', _⟩
      exact hv hv'

/-- The edit of a stretch applies to the text that holds it. -/
theorem applyTo_replace (file before old after newText : Text) :
    (replacing file before.byteSize old newText).applyTo (before ++ old ++ after)
      = .ok (before ++ newText ++ after) := by
  refine applyTo_eq_ok_iff.mpr ⟨⟨before, old, after⟩, cut?_append rfl rfl, .inr ?_, rfl⟩
  simp [replacing]

end Edit

end SitePatch
