import SitePatch.Edit

/-! # Patch errors — why a run ends early -/

namespace SitePatch

/-- **Why a run, or one of its sites, fails.** Paths are given in full, sites by their id. -/
inductive PatchError
  /-- The root is no directory. -/
  | missingRoot (path : Text)
  /-- The site's path leads to no file. -/
  | missingFile (site path : Text)
  /-- The site's file holds neither the delivered nor the patched region. -/
  | patternMismatch (site path : Text)
  /-- The site's file holds the region several times. -/
  | ambiguousMatch (site path : Text) (count : Nat)
  /-- The site's path leads out of the root. -/
  | outsideRoot (path root : Text)
  /-- Two sites of a registry name one path. -/
  | duplicateTarget (path : Text)
  /-- The site's file cannot be read. -/
  | io (path : Text) (cause : FileError)
  /-- The edit planned for the site's file does not apply. -/
  | edit (cause : EditError)
deriving DecidableEq

/-- The wording of a patch error. -/
def PatchError.message : PatchError → Text
  | missingRoot path => "root not found: " ++ path
  | missingFile site path => "file not found for '" ++ site ++ "': " ++ path
  | patternMismatch site path =>
    "could not find expected pattern for '" ++ site ++ "' in " ++ path
      ++ "; upstream layout changed"
  | ambiguousMatch site path count =>
    "pattern for '" ++ site ++ "' matched " ++ Text.ofNat count ++ " locations in " ++ path
      ++ ", expected 1"
  | outsideRoot path root => "path is outside root: " ++ path ++ " (root: " ++ root ++ ")"
  | duplicateTarget path => "two descriptors target the same file: " ++ path
  | io path cause => "I/O error on " ++ path ++ ": " ++ cause.message
  | edit cause => "edit error: " ++ cause.message

end SitePatch
