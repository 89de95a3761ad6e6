import Mathlib.Logic.Basic
import SitePatch.Proofs.FileTree

/-! # What an edit makes of a text

The offsets of an edit may be any numbers. They delimit a stretch of a text if they are in order,
inside the text and between characters (`Text.IsBoundary`, `Text.slice?_eq_none_iff`); only then is
anything cut, compared or measured, so no step of an edit can fail on the way
(`Edit.applyBySteps_eq`). What is outside the offsets stays byte by byte (`Edit.Spliced`). Main
statement: an edit is refused for its offsets, or for what stands between them, or it puts its new text
there and changes nothing else (`Edit.applyTo_spec`). -/

namespace SitePatch

/-! ## Texts in bytes -/

namespace Utf8

/-- A text is encoded part by part. -/
theorem encode_append (s t : Text) : encode (s ++ t) = encode s ++ encode t := by
  simp [encode, String.ofList_append]

end Utf8

namespace Text

variable {t before after middle : Text} {n start stop : Nat}

/-- The size of a text is that of its string. -/
theorem utf8ByteSize_ofList (t : Text) : (String.ofList t).utf8ByteSize = t.byteSize := by
  induction t with
  | nil => rfl
  | cons c t ih =>
    rw [← List.singleton_append, String.ofList_append, String.utf8ByteSize_append, ih, byteSize_append]
    simp [← String.size_toByteArray, List.utf8Encode_singleton]

/-- A text is encoded in as many bytes as its size says. -/
theorem size_encode (t : Text) : (Utf8.encode t).size = t.byteSize := by
  rw [Utf8.encode, String.size_toByteArray, utf8ByteSize_ofList]

/-- **The offset lies between characters**: what is before it is text. -/
def IsBoundary (t : Text) (n : Nat) : Prop := (⟨n⟩ : String.Pos.Raw).IsValid (String.ofList t)

instance (t : Text) (n : Nat) : Decidable (t.IsBoundary n) :=
  inferInstanceAs (Decidable ((⟨n⟩ : String.Pos.Raw).IsValid (String.ofList t)))

/-- An offset lies between characters exactly if the text can be cut there. -/
theorem isBoundary_iff : t.IsBoundary n ↔ ∃ before after, t = before ++ after ∧ before.byteSize = n := by
  rw [IsBoundary, String.Pos.Raw.isValid_ofList]
  simp only [utf8ByteSize_ofList]
  constructor
  · rintro ⟨i, hi⟩
    exact ⟨t.take i, t.drop i, (List.take_append_drop i t).symm, hi.symm⟩
  · rintro ⟨before, after, rfl, rfl⟩
    exact ⟨before.length, by rw [List.take_left]⟩

/-- **The text between two offsets**, if they are in order, inside the text and between characters. -/
def slice? (t : Text) (start stop : Nat) : Option Text :=
  match t.splitAtByte? stop with
  | none => none
  | some (head, _) =>
    match head.splitAtByte? start with
    | none => none
    | some (_, middle) => some middle

/-- What stands between two offsets is the middle of a text that is cut at them. -/
theorem slice?_eq_some_iff :
    t.slice? start stop = some middle ↔ ∃ before after, t = before ++ middle ++ after ∧
      start = before.byteSize ∧ stop = before.byteSize + middle.byteSize := by
  unfold slice?
  constructor
  · intro h
    split at h
    · simp at h
    · rename_i head after hstop
      split at h
      · simp at h
      · rename_i before middle' hstart
        obtain rfl := Option.some.inj h
        obtain ⟨rfl, rfl⟩ := eq_append_of_splitAtByte? hstop
        obtain ⟨rfl, rfl⟩ := eq_append_of_splitAtByte? hstart
        exact ⟨before, after, rfl, rfl, byteSize_append _ _⟩
  · rintro ⟨before, after, rfl, rfl, rfl⟩
    rw [← byteSize_append, splitAtByte?_byteSize]
    simp

/-- **Which offsets do not delimit a stretch.** -/
theorem slice?_eq_none_iff :
    t.slice? start stop = none ↔
      stop < start ∨ t.byteSize < stop ∨ ¬ t.IsBoundary start ∨ ¬ t.IsBoundary stop := by
  rw [← not_iff_not, ← ne_eq, Option.ne_none_iff_exists']
  simp only [slice?_eq_some_iff, not_or, Nat.not_lt, not_not, isBoundary_iff]
  constructor
  · rintro ⟨middle, before, after, rfl, rfl, rfl⟩
    refine ⟨Nat.le_add_right _ _, ?_, ⟨before, middle ++ after, by simp, rfl⟩,
      ⟨before ++ middle, after, rfl, by simp⟩⟩
    rw [byteSize_append, byteSize_append]
    exact Nat.le_add_right _ _
  · rintro ⟨hle, -, ⟨before, rest, rfl, rfl⟩, ⟨head, after, hcut, rfl⟩⟩
    rcases List.append_eq_append_iff.mp hcut with ⟨middle, rfl, rfl⟩ | ⟨middle, rfl, rfl⟩
    · exact ⟨middle, before, after, by simp, rfl, byteSize_append _ _⟩
    · -- the second offset is not before the first, so nothing stands between them
      have hmiddle : middle = [] := by
        cases middle with
        | nil => rfl
        | cons c middle =>
          have := c.utf8Size_pos
          rw [byteSize_append, byteSize_cons] at hle
          omega
      subst hmiddle
      exact ⟨[], head, rest, by simp, by simp, by simp⟩

end Text

/-! ## The stretch of an edit -/

namespace Edit

variable {e : Edit} {content result found : Text} {err : EditError}

/-- What the edit cuts out is what stands between its offsets. -/
theorem slice?_eq_map_cut? (e : Edit) (content : Text) :
    content.slice? e.start e.stop = (e.cut? content).map Cut.stretch := by
  cases hcut : e.cut? content with
  | some c =>
    obtain ⟨htext, hstart, hstop⟩ := eq_of_cut? hcut
    rw [Option.map_some, Text.slice?_eq_some_iff]
    exact ⟨c.before, c.after, htext, hstart, hstop⟩
  | none =>
    rw [Option.map_none]
    cases hslice : content.slice? e.start e.stop with
    | none => rfl
    | some middle =>
      obtain ⟨before, after, htext, hstart, hstop⟩ := Text.slice?_eq_some_iff.mp hslice
      rw [htext, cut?_append hstart hstop] at hcut
      simp at hcut

/-- What an edit leaves as it is stands before its first offset and behind its second one. -/
theorem slice?_of_cut? {c : Cut} (hcut : e.cut? content = some c) :
    content.slice? 0 e.start = some c.before ∧
      content.slice? e.stop content.byteSize = some c.after := by
  obtain ⟨rfl, hstart, hstop⟩ := eq_of_cut? hcut
  rw [Text.slice?_eq_some_iff, Text.slice?_eq_some_iff]
  constructor
  · exact ⟨[], c.stretch ++ c.after, by simp, rfl, by simp [hstart]⟩
  · refine ⟨c.before ++ c.stretch, [], by simp, ?_, ?_⟩
    · rw [hstop, Text.byteSize_append]
    · rw [Text.byteSize_append]

/-- What an edit makes of a text, by what stands between its offsets. -/
theorem applyTo_eq_of_cut? {c : Cut} (hcut : e.cut? content = some c) :
    e.applyTo content
      = if c.stretch = e.newText ∨ e.expected.accepts c.stretch = true then
          .ok (c.before ++ e.newText ++ c.after)
        else .error (.mismatch e.file e.start e.stop c.stretch) := by
  unfold applyTo verify
  rw [hcut]
  by_cases hv : c.stretch = e.newText ∨ e.expected.accepts c.stretch = true
  · simp only [if_pos hv]
  · simp only [if_neg hv]

/-- What is not turned down passes. -/
theorem not_rejected_iff :
    ¬ (found ≠ e.newText ∧ e.expected.accepts found = false) ↔
      found = e.newText ∨ e.expected.accepts found = true := by
  rw [not_and_or, ne_eq, not_not, Bool.not_eq_false]

/-- An edit fails where its offsets do not cut the text. -/
theorem applyTo_eq_of_cut?_eq_none (hcut : e.cut? content = none) :
    e.applyTo content = .error (.badRange e.start e.stop content.byteSize) := by
  unfold applyTo verify
  rw [hcut]

/-! ## What stays -/

/-- **The result is the text with the new text between the offsets**: its bytes are those of the text
up to the first offset, those of the new text, and those of the text from the second offset on, and
these are UTF-8. -/
structure Spliced (e : Edit) (content result : Text) : Prop where
  decode : Utf8.decode ((Utf8.encode content).extract 0 e.start ++ Utf8.encode e.newText
    ++ (Utf8.encode content).extract e.stop content.byteSize) = .ok result
  byteSize : result.byteSize = content.byteSize - (e.stop - e.start) + e.newText.byteSize

/-- There is only one result of an edit. -/
theorem Spliced.unique {result' : Text} (h : e.Spliced content result) (h' : e.Spliced content result') :
    result = result' :=
  Except.ok.inj (h.decode.symm.trans h'.decode)

/-- What an edit makes of a text that it has cut. -/
theorem spliced_of_cut? {c : Cut} (hcut : e.cut? content = some c) :
    e.Spliced content (c.before ++ e.newText ++ c.after) := by
  obtain ⟨rfl, hstart, hstop⟩ := eq_of_cut? hcut
  constructor
  · have hhead : (Utf8.encode (c.before ++ c.stretch ++ c.after)).extract 0 e.start
        = Utf8.encode c.before := by
      rw [List.append_assoc, Utf8.encode_append]
      exact ByteArray.extract_append_eq_left (by rw [hstart, Text.size_encode])
    have htail : (Utf8.encode (c.before ++ c.stretch ++ c.after)).extract e.stop
        (c.before ++ c.stretch ++ c.after).byteSize = Utf8.encode c.after := by
      rw [Utf8.encode_append]
      refine ByteArray.extract_append_eq_right ?_ ?_
      · rw [hstop, Text.size_encode, Text.byteSize_append]
      · rw [Text.byteSize_append, Text.size_encode, Text.size_encode]
    rw [hhead, htail, ← Utf8.encode_append, ← Utf8.encode_append, Utf8.decode_encode]
  · simp only [Text.byteSize_append, hstart, hstop]
    omega

/-! ## The steps of an edit -/

/-- How many numbers a word holds. -/
def wordSize : Nat := 0x10000000000000000

/-- The longest text that can be held, in bytes. -/
def maxSize : Nat := 0x7FFFFFFFFFFFFFFF

/-- The sum of two words, if it is a word. -/
def addWords? (m n : Nat) : Option Nat := if m + n < wordSize then some (m + n) else none

/-- The difference of two words, if it is one. -/
def subWords? (m n : Nat) : Option Nat := if n ≤ m then some (m - n) else none

/-- Room for a text of so many bytes, if there can be one. -/
def roomFor? (n : Nat) : Option Nat := if n ≤ maxSize then some n else none

/-- **The steps of an edit.** Nothing is the outcome where a step fails: where a text is cut at an
offset that is no boundary, a number is no word, or more room is asked for than there can be. -/
def applyBySteps (e : Edit) (content : Text) : Option (Except EditError Text) :=
  if e.stop < e.start ∨ content.byteSize < e.stop then
    some (.error (.badRange e.start e.stop content.byteSize))
  else
    match content.slice? e.start e.stop with
    | none => some (.error (.badRange e.start e.stop content.byteSize))
    | some current =>
      if current ≠ e.newText ∧ e.expected.accepts current = false then
        some (.error (.mismatch e.file e.start e.stop current))
      else do
        let both ← addWords? content.byteSize e.newText.byteSize
        let span ← subWords? e.stop e.start
        let size ← subWords? both span
        let _ ← roomFor? size
        let head ← content.slice? 0 e.start
        let tail ← content.slice? e.stop content.byteSize
        return .ok (head ++ e.newText ++ tail)

/-- **No step of an edit fails**, whatever its offsets are, unless the result is longer than a text can
be. -/
theorem applyBySteps_eq (hcontent : content.byteSize ≤ maxSize) (hnew : e.newText.byteSize ≤ maxSize)
    (hresult : ∀ result, e.applyTo content = .ok result → result.byteSize ≤ maxSize) :
    e.applyBySteps content = some (e.applyTo content) := by
  unfold applyBySteps
  have hslice := slice?_eq_map_cut? e content
  cases hcut : e.cut? content with
  | none =>
    rw [hcut, Option.map_none] at hslice
    rw [applyTo_eq_of_cut?_eq_none hcut, hslice]
    simp only [ite_self]
  | some c =>
    rw [hcut, Option.map_some] at hslice
    obtain ⟨htext, hstart, hstop⟩ := eq_of_cut? hcut
    have hsize : content.byteSize = c.before.byteSize + c.stretch.byteSize + c.after.byteSize := by
      rw [htext, Text.byteSize_append, Text.byteSize_append]
    have hrange : ¬ (e.stop < e.start ∨ content.byteSize < e.stop) := by omega
    rw [if_neg hrange, hslice]
    rw [applyTo_eq_of_cut? hcut] at hresult ⊢
    dsimp only
    by_cases hv : c.stretch = e.newText ∨ e.expected.accepts c.stretch = true
    · rw [if_pos hv] at hresult ⊢
      rw [if_neg (not_rejected_iff.mpr hv)]
      have hroom := hresult _ rfl
      simp only [Text.byteSize_append] at hroom
      obtain ⟨hhead, htail⟩ := slice?_of_cut? hcut
      have hboth : addWords? content.byteSize e.newText.byteSize
          = some (content.byteSize + e.newText.byteSize) :=
        if_pos (by simp only [wordSize, maxSize] at *; omega)
      have hspan : subWords? e.stop e.start = some (e.stop - e.start) := if_pos (by omega)
      have hrest : subWords? (content.byteSize + e.newText.byteSize) (e.stop - e.start)
          = some (content.byteSize + e.newText.byteSize - (e.stop - e.start)) := if_pos (by omega)
      have hroomFor : roomFor? (content.byteSize + e.newText.byteSize - (e.stop - e.start))
          = some (content.byteSize + e.newText.byteSize - (e.stop - e.start)) := if_pos (by omega)
      simp [hboth, hspan, hrest, hroomFor, hhead, htail]
    · rw [if_neg hv, if_pos (not_not.mp (mt not_rejected_iff.mp hv))]

/-! ## Edits and their answers -/

/-- **An edit fails for its offsets** exactly if they cut nothing out of the text. -/
theorem applyTo_eq_badRange_iff :
    e.applyTo content = .error (.badRange e.start e.stop content.byteSize) ↔
      content.slice? e.start e.stop = none := by
  rw [slice?_eq_map_cut?, Option.map_eq_none_iff]
  refine ⟨fun h => ?_, applyTo_eq_of_cut?_eq_none⟩
  cases hcut : e.cut? content with
  | none => rfl
  | some c =>
    rw [applyTo_eq_of_cut? hcut] at h
    split at h <;> simp at h

/-- **An edit fails for what it finds** exactly if that is neither the new text nor what is
expected. -/
theorem applyTo_eq_mismatch_iff :
    e.applyTo content = .error (.mismatch e.file e.start e.stop found) ↔
      content.slice? e.start e.stop = some found ∧ found ≠ e.newText ∧
        e.expected.accepts found = false := by
  rw [slice?_eq_map_cut?]
  cases hcut : e.cut? content with
  | none => simp [applyTo_eq_of_cut?_eq_none hcut]
  | some c =>
    rw [applyTo_eq_of_cut? hcut, Option.map_some, Option.some.injEq]
    by_cases hv : c.stretch = e.newText ∨ e.expected.accepts c.stretch = true
    · rw [if_pos hv]
      refine iff_of_false (by simp) ?_
      rintro ⟨rfl, hrejected⟩
      exact not_rejected_iff.mpr hv hrejected
    · rw [if_neg hv]
      replace hv := not_not.mp (mt not_rejected_iff.mp hv)
      constructor
      · intro h
        obtain rfl : c.stretch = found := by simpa using h
        exact ⟨rfl, hv⟩
      · rintro ⟨rfl, -⟩
        rfl

/-- An edit applies where its new text stands already, or what it expects. -/
theorem exists_applyTo_iff :
    (∃ result, e.applyTo content = .ok result) ↔ ∃ found, content.slice? e.start e.stop = some found ∧
      (found = e.newText ∨ e.expected.accepts found = true) := by
  simp only [applyTo_eq_ok_iff, slice?_eq_map_cut?, Option.map_eq_some_iff]
  constructor
  · rintro ⟨_, c, hcut, hv, -⟩
    exact ⟨c.stretch, ⟨c, hcut, rfl⟩, hv⟩
  · rintro ⟨_, ⟨c, hcut, rfl⟩, hv⟩
    exact ⟨_, c, hcut, hv, rfl⟩

/-- An edit that applies splices its new text into the text. -/
theorem spliced_of_applyTo (h : e.applyTo content = .ok result) : e.Spliced content result := by
  obtain ⟨c, hcut, -, rfl⟩ := applyTo_eq_ok_iff.mp h
  exact spliced_of_cut? hcut

/-- **An edit applies** exactly if it finds the new text or what is expected, and then splices. -/
theorem applyTo_eq_ok_iff_spliced :
    e.applyTo content = .ok result ↔
      (∃ found, content.slice? e.start e.stop = some found ∧
        (found = e.newText ∨ e.expected.accepts found = true)) ∧ e.Spliced content result := by
  rw [← exists_applyTo_iff]
  constructor
  · exact fun h => ⟨⟨result, h⟩, spliced_of_applyTo h⟩
  · rintro ⟨⟨result', h⟩, hspliced⟩
    rw [h, (spliced_of_applyTo h).unique hspliced]

/-- An edit leaves a text as it is exactly if the new text stands there already. -/
theorem eq_content_iff (h : e.applyTo content = .ok result) :
    result = content ↔ content.slice? e.start e.stop = some e.newText := by
  obtain ⟨c, hcut, -, rfl⟩ := applyTo_eq_ok_iff.mp h
  obtain ⟨htext, -⟩ := eq_of_cut? hcut
  rw [slice?_eq_map_cut?, hcut, Option.map_some, Option.some.injEq]
  constructor
  · intro hsame
    rw [htext] at hsame
    exact (List.append_cancel_left (List.append_cancel_right hsame)).symm
  · intro hsame
    rw [← hsame, ← htext]

/-- An edit is refused for its offsets or for what stands between them. -/
theorem eq_of_applyTo_eq_error (h : e.applyTo content = .error err) :
    err = .badRange e.start e.stop content.byteSize ∨
      ∃ found, err = .mismatch e.file e.start e.stop found := by
  cases hcut : e.cut? content with
  | none =>
    rw [applyTo_eq_of_cut?_eq_none hcut] at h
    exact .inl (Except.error.inj h).symm
  | some c =>
    rw [applyTo_eq_of_cut? hcut] at h
    split at h
    · simp at h
    · exact .inr ⟨c.stretch, (Except.error.inj h).symm⟩

/-- The edit of the bytes from `start` to `stop`, which should hold the text `old`. -/
def expecting (file : Text) (start stop : Nat) (newText old : Text) : Edit :=
  ⟨file, start, stop, newText, .ofText old⟩

/-- An edit that expects a short text applies where this or its new text stands, and nowhere else. -/
theorem exists_applyTo_expecting_iff {file newText old : Text} {start stop : Nat}
    (hold : old.byteSize ≤ Verification.exactLimit) :
    (∃ result, (expecting file start stop newText old).applyTo content = .ok result) ↔
      content.slice? start stop = some newText ∨ content.slice? start stop = some old := by
  have hexact : Verification.ofText old = .exact old := if_neg (Nat.not_lt.mpr hold)
  rw [exists_applyTo_iff]
  simp only [expecting, hexact, Verification.accepts, beq_iff_eq]
  constructor
  · rintro ⟨found, hslice, rfl | rfl⟩
    · exact .inl hslice
    · exact .inr hslice
  · rintro (hslice | hslice)
    · exact ⟨_, hslice, .inl rfl⟩
    · exact ⟨_, hslice, .inr rfl⟩

/-- **What an edit makes of a text**, whatever its offsets are. It is refused for its offsets exactly
if these are out of order, out of the text, or inside a character; else for what stands between them,
if that is neither the new text nor what is expected; else the new text is put there, nothing else
changes, and the text stays as it was exactly if the new text stood there. A text that is expected as
it is passes alone, and a digest lets the texts with this digest pass; so an edit that was made for a
short text applies where this or the new text stands, and nowhere else. No step of an edit fails on the
way, unless its result is longer than a text can be. -/
theorem applyTo_spec (e : Edit) (content : Text) :
    (e.applyTo content = .error (.badRange e.start e.stop content.byteSize) ↔
        e.stop < e.start ∨ content.byteSize < e.stop ∨ ¬ content.IsBoundary e.start ∨
          ¬ content.IsBoundary e.stop) ∧
      (∀ found, e.applyTo content = .error (.mismatch e.file e.start e.stop found) ↔
        content.slice? e.start e.stop = some found ∧ found ≠ e.newText ∧
          e.expected.accepts found = false) ∧
      (∀ result, e.applyTo content = .ok result ↔
        (∃ found, content.slice? e.start e.stop = some found ∧
          (found = e.newText ∨ e.expected.accepts found = true)) ∧ e.Spliced content result) ∧
      (∀ err, e.applyTo content = .error err → err = .badRange e.start e.stop content.byteSize ∨
        ∃ found, err = .mismatch e.file e.start e.stop found) ∧
      (∀ result, e.applyTo content = .ok result →
        (result = content ↔ content.slice? e.start e.stop = some e.newText)) ∧
      (∀ expected t, (Verification.exact expected).accepts t = true ↔ t = expected) ∧
      (∀ hash t, (Verification.digest hash).accepts t = true ↔ Xxh3.digest (Utf8.encode t) = hash) ∧
      (∀ file start stop newText old, old.byteSize ≤ Verification.exactLimit →
        ((∃ result, (expecting file start stop newText old).applyTo content = .ok result) ↔
          content.slice? start stop = some newText ∨ content.slice? start stop = some old)) ∧
      (content.byteSize ≤ maxSize → e.newText.byteSize ≤ maxSize →
        (∀ result, e.applyTo content = .ok result → result.byteSize ≤ maxSize) →
          e.applyBySteps content = some (e.applyTo content)) := by
  refine ⟨?_, fun _ => applyTo_eq_mismatch_iff, fun _ => applyTo_eq_ok_iff_spliced,
    fun _ => eq_of_applyTo_eq_error, fun _ => eq_content_iff, fun _ _ => ?_, fun _ _ => ?_,
    fun _ _ _ _ _ => exists_applyTo_expecting_iff, applyBySteps_eq⟩
  · rw [applyTo_eq_badRange_iff, Text.slice?_eq_none_iff]
  · exact beq_iff_eq
  · exact beq_iff_eq

/-- The edit of the second character of a text, whatever it takes in bytes. -/
def plainSecond (stop : Nat) : Edit := expecting "a.cpp" 1 stop "e" "é"

/-- The character takes two bytes, so the offset after the first of them is refused, and the edit of
both applies. -/
theorem applyTo_plainSecond :
    (plainSecond 2).applyTo "aéb" = .error (.badRange 1 2 4) ∧
      (plainSecond 3).applyTo "aéb" = .ok "aeb" ∧
        (plainSecond 3).applyBySteps "aéb" = some (.ok "aeb") ∧
          ∃ result, (plainSecond 3).applyTo "aéb" = .ok result ∧ result ≠ "aéb" := by
  have hok : (plainSecond 3).applyTo "aéb" = .ok "aeb" := by rfl
  obtain ⟨hrange, -⟩ := applyTo_spec (plainSecond 2) "aéb"
  obtain ⟨-, -, -, -, hsame, -, -, -, hsteps⟩ := applyTo_spec (plainSecond 3) "aéb"
  refine ⟨hrange.mpr (.inr (.inr (.inr (by decide)))), hok, ?_, _, hok, fun h => ?_⟩
  · rw [← hok]
    refine hsteps (by decide) (by decide) fun result h => ?_
    rw [hok] at h
    rw [← Except.ok.inj h]
    decide
  · exact absurd ((hsame _ hok).mp h) (by decide)

end Edit

end SitePatch
