import SitePatch.Condition
import SitePatch.Shape

/-! # Sites — the places that are patched

A `Site` says which file is patched and how: the shape of the region as it is delivered, the shape
of the region once it is patched, the template of the patched region, and the form of its condition.
-/

namespace SitePatch

/-! ## Templates -/

/-- A part of a template. -/
inductive TemplatePart
  | text (t : Text)
  /-- The indentation of the region that is replaced. -/
  | indent
  /-- The condition for the names at hand. -/
  | condition
deriving DecidableEq

/-- **A template** of a patched region. -/
abbrev Template := List TemplatePart

/-- What a part stands for. -/
def TemplatePart.fill (indent condition : Text) : TemplatePart → Text
  | text t => t
  | .indent => indent
  | .condition => condition

/-- The region that a template describes. -/
def Template.fill (template : Template) (indent condition : Text) : Text :=
  template.flatMap (TemplatePart.fill indent condition)

/-! ## Sites -/

/-- **A site.** It finds its regions by shapes, which start with a line, and fills its replacement from
a template. What finds its regions by any other search, or makes its replacement by any other function
of the indentation and the condition, is not a site here: what holds of all sites, and of all
registries of them, is stated for shapes and templates. -/
structure Site where
  id : Text
  /-- The path of the file, relative to the root. -/
  path : Text
  /-- The region as it is delivered. -/
  pristine : Shape
  /-- The region once it is patched, if it can be recognised. -/
  merge : Option Shape
  /-- The patched region. -/
  replacement : Template
  condition : ConditionForm
deriving DecidableEq

namespace Site

/-- The patched region for the names. -/
def patched (s : Site) (indent : Text) (names : NameSet) : Text :=
  s.replacement.fill indent (s.condition.build names)

/-- The checks that together show that a file is patched for the names. -/
def tokens (s : Site) (names : NameSet) : List Text := s.condition.tokens names

/-- Whether all the tokens stand in the text. -/
def isFullyApplied (s : Site) (content : Text) (names : NameSet) : Bool :=
  (s.tokens names).all fun token => token.occursIn content

end Site

end SitePatch
