import SitePatch.Text.Word

/-! # Name sets

The function `require` is the base: every site checks it, so it is never listed. A `NameSet` holds
the *extra* names, in the order in which they were first given. Its names are identifiers other than
the base name, and none occurs twice; both facts are part of the types, so text that is generated
from a name set can never break out of its quotes. -/

namespace SitePatch

/-- The function that every site checks first. -/
def baseName : Text := "require"

/-- The extra name that is used when none is configured. -/
def defaultFunctions : Text := "sharedRequire"

/-- Whether the text is an identifier: a letter or an underscore, then letters, digits and
underscores, all in ASCII. -/
def isIdentifier : Text → Bool
  | [] => false
  | c :: cs => (c.isAlpha || c == '_') && cs.all Text.isIdentChar

/-! ## Names -/

/-- **An extra name**: an identifier other than the base name. -/
structure Name where
  text : Text
  isIdentifier_text : isIdentifier text = true
  text_ne_base : text ≠ baseName
deriving DecidableEq

/-- Why an entry is not a name. -/
inductive NameError
  /-- The entry, without the white space around it, is no identifier. -/
  | invalidIdentifier (name : Text)
deriving DecidableEq

/-- The wording of a refusal. -/
def NameError.message : NameError → Text
  | invalidIdentifier name => "invalid function name '" ++ name ++ "': expected a C identifier"

/-- What a raw entry stands for, once the white space around it is gone: a blank entry and the base
name stand for nothing. -/
def Name.ofEntry (raw : Text) : Except NameError (Option Name) :=
  if hskip : raw.trim = [] ∨ raw.trim = baseName then .ok none
  else if hident : isIdentifier raw.trim = true then
    .ok (some ⟨raw.trim, hident, fun h => hskip (.inr h)⟩)
  else .error (.invalidIdentifier raw.trim)

/-! ## Sets of names -/

/-- **A set of extra names**, in order of first occurrence. -/
structure NameSet where
  names : List Name
  nodup : names.Nodup
deriving DecidableEq

namespace NameSet

/-- The set without extra names. -/
def empty : NameSet := ⟨[], .nil⟩

/-- The set with one more name at its end, unless it is already there. -/
def insert (s : NameSet) (n : Name) : NameSet :=
  if h : n ∈ s.names then s
  else ⟨s.names ++ [n], by
    refine List.nodup_append.mpr ⟨s.nodup, by simp, ?_⟩
    rintro a ha b hb rfl
    exact h (by simpa using List.mem_singleton.mp hb ▸ ha)⟩

/-- The names that the entries stand for, or the refusal of the first bad entry. -/
def ofEntries (raws : List Text) : Except NameError NameSet :=
  raws.foldlM (fun s raw =>
    match Name.ofEntry raw with
    | .ok none => .ok s
    | .ok (some n) => .ok (s.insert n)
    | .error e => .error e) empty

/-- The names of a list whose entries are separated by commas. -/
def ofCsv (csv : Text) : Except NameError NameSet := ofEntries (csv.split ',')

/-- The texts of the names, in order. -/
def toList (s : NameSet) : List Text := s.names.map Name.text

/-- Whether the text is one of the names. -/
def contains (s : NameSet) (name : Text) : Bool := s.toList.contains name

/-- The number of extra names. -/
def size (s : NameSet) : Nat := s.names.length

/-- Whether there is no extra name. -/
def isEmpty (s : NameSet) : Bool := s.names.isEmpty

/-- The base name followed by the extra names. -/
def withBase (s : NameSet) : List Text := baseName :: s.toList

/-- The base name and the extra names as one line. -/
def display (s : NameSet) : Text := List.intercalate ", ".toList s.withBase

/-- The empty set has no names. -/
@[simp] theorem toList_empty : empty.toList = [] := rfl

/-- Inserting adds a text at the end unless it is there. -/
theorem toList_insert (s : NameSet) (n : Name) :
    (s.insert n).toList = if n.text ∈ s.toList then s.toList else s.toList ++ [n.text] := by
  have hmem : n ∈ s.names ↔ n.text ∈ s.toList := by
    simp only [toList, List.mem_map]
    refine ⟨fun h => ⟨n, h, rfl⟩, ?_⟩
    rintro ⟨⟨t, _, _⟩, hm, ht⟩
    obtain ⟨u, _, _⟩ := n
    simp only at ht
    subst ht
    exact hm
  by_cases h : n ∈ s.names
  · simp [insert, h, hmem.mp h]
  · have h' : n.text ∉ s.toList := fun hm => h (hmem.mpr hm)
    rw [if_neg h']
    simp [insert, h, toList]

end NameSet

end SitePatch
