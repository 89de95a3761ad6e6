/-! # Text — lists of characters and the few operations on them

Everything the library searches, compares and splices is a `Text`, a list of Unicode characters.
Offsets reported to the outside are byte offsets into the UTF-8 form, so the module also measures a
text in bytes (`Text.byteSize`) and cuts it at a byte offset (`Text.splitAtByte?`). The main
statements say that a text occurs in another exactly when the other can be written around it
(`occursIn_iff`), and that a cut at a byte offset loses nothing (`eq_append_of_splitAtByte?`). -/

namespace SitePatch

/-- **Text**: what is searched, compared and spliced. -/
abbrev Text := List Char

instance : Coe String Text := ⟨String.toList⟩

namespace Text

/-! ## White space -/

/-- The characters with the Unicode property `White_Space`. -/
def isBlank (c : Char) : Bool :=
  let n := c.toNat
  (9 ≤ n && n ≤ 13) || n == 0x20 || n == 0x85 || n == 0xA0 || n == 0x1680
    || (0x2000 ≤ n && n ≤ 0x200A) || n == 0x2028 || n == 0x2029 || n == 0x202F
    || n == 0x205F || n == 0x3000

/-- The text without the white space at its end. -/
def trimEnd (t : Text) : Text := (t.reverse.dropWhile isBlank).reverse

/-- The text without the white space at both ends. -/
def trim (t : Text) : Text := trimEnd (t.dropWhile isBlank)

/-- The empty text has no white space at its end. -/
@[simp] theorem trimEnd_nil : trimEnd [] = [] := rfl

/-- The empty text has no white space around it. -/
@[simp] theorem trim_nil : trim [] = [] := rfl

/-! ## Occurrence -/

/-- Whether `needle` stands somewhere in the text. -/
def occursIn (needle : Text) : Text → Bool
  | [] => needle.isEmpty
  | c :: cs => needle.isPrefixOf (c :: cs) || occursIn needle cs

/-- A text occurs in another exactly when the other can be written around it. -/
theorem occursIn_iff {needle t : Text} :
    occursIn needle t = true ↔ ∃ before after, t = before ++ needle ++ after := by
  induction t with
  | nil => simp [occursIn]
  | cons c cs ih =>
    simp only [occursIn, Bool.or_eq_true, List.isPrefixOf_iff_prefix, ih]
    constructor
    · rintro (⟨after, h⟩ | ⟨before, after, rfl⟩)
      · exact ⟨[], after, by simpa using h.symm⟩
      · exact ⟨c :: before, after, by simp⟩
    · rintro ⟨before, after, h⟩
      cases before with
      | nil => exact .inl ⟨after, by simpa using h.symm⟩
      | cons b bs =>
        simp only [List.cons_append, List.cons.injEq] at h
        exact .inr ⟨bs, after, h.2⟩

/-! ## Splitting and joining -/

/-- The parts of a text between the separators; a text without separator is one part. -/
def split (separator : Char) : Text → List Text
  | [] => [[]]
  | c :: cs =>
    if c = separator then [] :: split separator cs
    else match split separator cs with
      | [] => [[c]]
      | part :: parts => (c :: part) :: parts

/-- The decimal form of a number. -/
def ofNat (n : Nat) : Text := Nat.toDigits 10 n

/-! ## Measuring in bytes -/

/-- The number of bytes of the text's UTF-8 form. -/
def byteSize (t : Text) : Nat := t.foldr (fun c n => c.utf8Size + n) 0

/-- The empty text has no bytes. -/
@[simp] theorem byteSize_nil : byteSize [] = 0 := rfl

/-- A character adds its bytes to those of a text. -/
@[simp] theorem byteSize_cons (c : Char) (t : Text) :
    byteSize (c :: t) = c.utf8Size + byteSize t := by
  simp [byteSize]

/-- Sizes add up. -/
@[simp] theorem byteSize_append (s t : Text) : byteSize (s ++ t) = byteSize s + byteSize t := by
  induction s with
  | nil => simp
  | cons c s ih => rw [List.cons_append, byteSize_cons, byteSize_cons, ih, Nat.add_assoc]

/-- The text cut `offset` bytes after its start; there is no cut beyond its end or inside a
character. -/
def splitAtByte? : Nat → Text → Option (Text × Text)
  | 0, t => some ([], t)
  | _ + 1, [] => none
  | n + 1, c :: cs =>
    if c.utf8Size ≤ n + 1 then
      match splitAtByte? (n + 1 - c.utf8Size) cs with
      | some (before, after) => some (c :: before, after)
      | none => none
    else none

/-- A text can be cut at its start. -/
@[simp] theorem splitAtByte?_zero (t : Text) : splitAtByte? 0 t = some ([], t) := by
  cases t <;> rfl

/-- The cut after the bytes of a first part gives that part and the rest. -/
@[simp] theorem splitAtByte?_byteSize (s t : Text) :
    splitAtByte? (byteSize s) (s ++ t) = some (s, t) := by
  induction s with
  | nil => simp
  | cons c s ih =>
    obtain ⟨n, hn⟩ : ∃ n, byteSize (c :: s) = n + 1 :=
      ⟨byteSize (c :: s) - 1, by have := c.utf8Size_pos; simp only [byteSize_cons]; omega⟩
    have hle : c.utf8Size ≤ n + 1 := by rw [← hn, byteSize_cons]; omega
    have hsub : n + 1 - c.utf8Size = byteSize s := by rw [← hn, byteSize_cons]; omega
    rw [hn, List.cons_append, splitAtByte?, if_pos hle, hsub, ih]

/-- A cut loses nothing, and its first part has as many bytes as the offset says. -/
theorem eq_append_of_splitAtByte? {n : Nat} {t before after : Text}
    (h : splitAtByte? n t = some (before, after)) :
    t = before ++ after ∧ byteSize before = n := by
  induction t generalizing n before with
  | nil =>
    cases n with
    | zero => simp_all
    | succ n => simp [splitAtByte?] at h
  | cons c cs ih =>
    cases n with
    | zero =>
      simp only [splitAtByte?_zero, Option.some.injEq, Prod.mk.injEq] at h
      obtain ⟨rfl, rfl⟩ := h
      simp
    | succ n =>
      rw [splitAtByte?] at h
      split at h
      · split at h
        · rename_i hle _ b a hcut
          simp only [Option.some.injEq, Prod.mk.injEq] at h
          obtain ⟨rfl, rfl⟩ := h
          obtain ⟨rfl, hsize⟩ := ih hcut
          refine ⟨rfl, ?_⟩
          rw [byteSize_cons, hsize]
          omega
        · simp at h
      · simp at h

end Text

end SitePatch
