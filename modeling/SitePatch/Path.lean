import SitePatch.Text

/-! # Paths as they are written

A path is a text; its parts stand between slashes. Joining two paths only puts text together: dots
and repeated slashes stay as they are. -/

namespace SitePatch.Path

/-- Whether the path starts at the top of the file tree. -/
def isAbsolute (path : Text) : Bool := path.head? == some '/'

/-- The path `relative` as seen from the directory `base`. An absolute path stands for itself, and
an empty one leaves a slash at the end. -/
def join (base relative : Text) : Text :=
  if isAbsolute relative then relative
  else if base.isEmpty || base.getLast? == some '/' then base ++ relative
  else base ++ "/" ++ relative

/-- The parts of a path. An empty part stays: where a slash is at the end, a directory is asked
for. -/
def parts (path : Text) : List Text := path.split '/'

/-- The parts of a path that name something: no dots. -/
def names (path : Text) : List Text :=
  (path.split '/').filter fun part => !part.isEmpty && part != ['.']

/-- The name at the end of a path, if it ends at a name. -/
def lastName? (path : Text) : Option Text := (names path).getLast?.filter (· != "..".toList)

/-- The parts of a path before its last one. -/
def way (path : Text) : List Text := (names path).dropLast

/-- An absolute path stays as it is when it is joined to another. -/
theorem join_of_isAbsolute {base relative : Text} (h : isAbsolute relative = true) :
    join base relative = relative := by
  simp [join, h]

end SitePatch.Path
