import SitePatch.Text

/-! # Splitting and joining

A text is split at every separator, so a first part without separators goes to the first piece
(`Text.split_append`), and a separator cuts the pieces in front of it from those behind it
(`Text.split_append_separator`). Main statements: joining is the inverse of splitting
(`Text.intercalate_split`), and splitting is the inverse of joining for pieces in which no separator
stands (`Text.split_intercalate`). -/

namespace SitePatch.Text

variable {w t p : Text} {ps : List Text} {separator : Char}

/-- A text that is split has at least one part. -/
theorem exists_split (separator : Char) (t : Text) : ∃ p ps, t.split separator = p :: ps := by
  refine List.exists_cons_of_ne_nil ?_
  cases t with
  | nil => simp [split]
  | cons c cs =>
    rw [split]
    split
    · simp
    · split <;> simp

/-- A text is split behind a first part without separators like the rest. -/
theorem split_append (hw : separator ∉ w) (ht : t.split separator = p :: ps) :
    (w ++ t).split separator = (w ++ p) :: ps := by
  induction w with
  | nil => exact ht
  | cons c w ih =>
    rw [List.mem_cons, not_or] at hw
    rw [List.cons_append, split, if_neg (Ne.symm hw.1), ih hw.2]
    rfl

/-- A text without separators is one piece. -/
theorem split_of_not_mem (ht : separator ∉ t) : t.split separator = [t] := by
  have h := split_append (t := []) ht rfl
  rwa [List.append_nil] at h

/-- A text is split at a separator into what the parts around it are split into. -/
theorem split_append_separator (t u : Text) :
    (t ++ separator :: u).split separator = t.split separator ++ u.split separator := by
  induction t with
  | nil => simp [split]
  | cons c cs ih =>
    rw [List.cons_append, split, split]
    by_cases hc : c = separator
    · rw [if_pos hc, if_pos hc, ih, List.cons_append]
    · obtain ⟨p, ps, hsplit⟩ := exists_split separator cs
      rw [if_neg hc, if_neg hc, ih, hsplit, List.cons_append, List.cons_append]

/-- No part of a split text has the separator. -/
theorem not_mem_of_mem_split : ∀ part ∈ t.split separator, separator ∉ part := by
  induction t with
  | nil => simp [split]
  | cons c cs ih =>
    intro part hpart
    rw [split] at hpart
    split at hpart
    · rcases List.mem_cons.mp hpart with rfl | hpart
      · simp
      · exact ih part hpart
    · rename_i hc
      split at hpart
      · rw [List.mem_singleton.mp hpart, List.mem_singleton]
        exact Ne.symm hc
      · rename_i q qs hsplit
        rcases List.mem_cons.mp hpart with rfl | hpart
        · rw [List.mem_cons, not_or]
          exact ⟨Ne.symm hc, ih q (by rw [hsplit]; simp)⟩
        · exact ih part (by rw [hsplit]; simp [hpart])

/-- **A split text is joined again.** -/
theorem intercalate_split (separator : Char) (t : Text) :
    List.intercalate [separator] (t.split separator) = t := by
  induction t with
  | nil => rfl
  | cons c cs ih =>
    obtain ⟨p, ps, hsplit⟩ := exists_split separator cs
    rw [split, hsplit]
    rw [hsplit] at ih
    by_cases hc : c = separator
    · rw [if_pos hc, List.intercalate_cons_cons, ih, hc]
      rfl
    · rw [if_neg hc]
      cases ps with
      | nil =>
        rw [List.intercalate_singleton] at ih ⊢
        rw [ih]
      | cons q qs =>
        rw [List.intercalate_cons_cons] at ih ⊢
        rw [List.cons_append, List.cons_append, ih]

/-- **Texts that are split alike are the same.** -/
theorem split_injective : Function.Injective (split separator) :=
  Function.LeftInverse.injective (intercalate_split separator)

/-- **Joined pieces are split again**, if there is one and no separator stands in them. -/
theorem split_intercalate (hps : ps ≠ []) (h : ∀ p ∈ ps, separator ∉ p) :
    split separator (List.intercalate [separator] ps) = ps := by
  induction ps with
  | nil => exact absurd rfl hps
  | cons p ps ih =>
    obtain ⟨hp, hrest⟩ := List.forall_mem_cons.mp h
    cases ps with
    | nil => rw [List.intercalate_singleton, split_of_not_mem hp]
    | cons q qs =>
      rw [List.intercalate_cons_cons, List.append_assoc, List.singleton_append,
        split_append_separator, split_of_not_mem hp, ih (by simp) hrest, List.singleton_append]

end SitePatch.Text
