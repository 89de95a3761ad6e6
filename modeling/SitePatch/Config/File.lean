import SitePatch.FileTree
import SitePatch.Settings

/-! # Configuration files

The configuration of a run is in a file of a file tree. `Config.discover?` finds it in a directory
by its name, and `Config.load` reads it. -/

namespace SitePatch.Config

/-- The path of the configuration file in a directory, if there is such a file. -/
def discover? (t : FileTree) (directory : Text) : Option Text :=
  let path := Path.join directory configFileName
  if t.isFile path then some path else none

/-- **The configuration** in the file that a path leads to from the directory `here`. A refusal
names the path as it was given. -/
def load (t : FileTree) (here : Location) (path : Text) : Except ConfigError Config :=
  match t.readTextFrom here path with
  | .error cause => .error (.read path cause)
  | .ok text => parse text path

end SitePatch.Config
