import SitePatch.FileTree

/-! # Roots — the directory that a run stays in

A `Root` is a directory of a tree, by its location. `Root.locate` finds the file that a path leads
to from the root, and refuses one that lies elsewhere; links are followed first, so a link cannot
lead out of the root. -/

namespace SitePatch

/-- **A root**: the location of a directory. -/
structure Root where
  location : Location
deriving DecidableEq

/-- Why a root or a file below it is refused. -/
inductive RootError
  /-- The path leads to no directory. -/
  | missingRoot (path : Text)
  /-- The path leads to no file. -/
  | missingFile (path : Text)
  /-- The file lies outside the root. -/
  | outside (path root : Text)
  /-- The path leads to a location whose own path cannot be followed. -/
  | notCanonical (path : Text) (cause : FileError)
deriving DecidableEq

/-- The wording of a refusal. -/
def RootError.message : RootError → Text
  | missingRoot path => "root directory not found: " ++ path
  | missingFile path => "file not found: " ++ path
  | outside path root => "path is outside root: " ++ path ++ " (root: " ++ root ++ ")"
  | notCanonical path cause => "failed to canonicalize " ++ path ++ ": " ++ cause.message

namespace Root

/-- The path of the root. -/
def path (r : Root) : Text := r.location.path

/-- The root to which a path leads. -/
def ofPath (t : FileTree) (path : Text) : Except RootError Root :=
  if t.isDirectory path then
    match t.canonicalize path with
    | .error cause => .error (.notCanonical path cause)
    | .ok l => .ok ⟨l⟩
  else .error (.missingRoot path)

/-- **The location of the file** to which a path leads from the root. -/
def locate (r : Root) (t : FileTree) (relative : Text) : Except RootError Location :=
  let joined := Path.join r.path relative
  if t.isFile joined then
    match t.canonicalize joined with
    | .error cause => .error (.notCanonical joined cause)
    | .ok l => if r.location.isPrefixOf l then .ok l else .error (.outside l.path r.path)
  else .error (.missingFile joined)

/-- A root is the canonical location of a directory. -/
theorem ofPath_eq_ok_iff {t : FileTree} {path : Text} {r : Root} :
    ofPath t path = .ok r ↔ t.isDirectory path = true ∧ t.canonicalize path = .ok r.location := by
  unfold ofPath
  by_cases hdirectory : t.isDirectory path = true
  · cases hcanonical : t.canonicalize path with
    | error cause => simp [hdirectory]
    | ok l =>
      obtain ⟨k⟩ := r
      simp [hdirectory]
  · simp [hdirectory]

/-- What is located is the canonical location of a file, below the root. -/
theorem locate_eq_ok_iff {r : Root} {t : FileTree} {relative : Text} {l : Location} :
    r.locate t relative = .ok l ↔ t.isFile (Path.join r.path relative) = true ∧
      t.canonicalize (Path.join r.path relative) = .ok l ∧ r.location <+: l := by
  simp only [locate, ← List.isPrefixOf_iff_prefix]
  by_cases hfile : t.isFile (Path.join r.path relative) = true
  · cases hcanonical : t.canonicalize (Path.join r.path relative) with
    | error cause => simp [hfile]
    | ok k =>
      by_cases hbelow : r.location.isPrefixOf k = true
      · simp only [hfile, hbelow, if_true, Except.ok.injEq, true_and]
        exact ⟨fun h => ⟨h, h ▸ hbelow⟩, And.left⟩
      · simp only [hfile, hbelow, if_true, Bool.false_eq_true, if_false, reduceCtorEq,
          Except.ok.injEq, true_and, false_iff, not_and]
        rintro rfl
        exact hbelow
  · simp [hfile]

/-- What is located is a file, and lies below the root. -/
theorem locate_spec {r : Root} {t : FileTree} {relative : Text} {l : Location}
    (h : r.locate t relative = .ok l) :
    (∃ f, t.get? l = some (.file f)) ∧ ∃ rest, l = r.location ++ rest := by
  obtain ⟨hfile, hcanonical, rest, hrest⟩ := locate_eq_ok_iff.mp h
  obtain ⟨k, f, hk, hf⟩ := FileTree.isFile_iff.mp hfile
  obtain rfl := Except.ok.inj (hk.symm.trans (FileTree.resolve_of_canonicalize hcanonical))
  exact ⟨⟨f, hf⟩, rest, hrest.symm⟩

end Root

end SitePatch
