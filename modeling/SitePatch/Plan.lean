import SitePatch.PatchError
import SitePatch.Site

/-! # Plans — what a site has to do to a text

`Site.plan` looks at a text for the delivered region, then for the patched region, then for the
tokens, and decides: rewrite the delivered region, extend the condition of the patched region, or
leave the text alone. A text in which none of the three is found, or a region is found several
times, is refused. `Site.patch` carries the plan out on the text. -/

namespace SitePatch

/-- How a text was found to need no change. -/
inductive AppliedBy
  /-- The delivered region stands there, and there are no extra names. -/
  | baseOnly
  /-- The patched region stands there with all the checks. -/
  | mergePattern
  /-- No region stands there, but all the tokens do. -/
  | tokens
deriving DecidableEq, Repr

/-- **What was found in a text.** -/
inductive PatchState
  /-- The delivered region. -/
  | pristine
  /-- The patched region, which lacks the checks `added`. -/
  | needsMerge (added : List Text)
  /-- Nothing to do. -/
  | applied (evidence : AppliedBy)
deriving DecidableEq

/-- **A plan**: what was found, and the edit that is due. -/
structure Plan where
  state : PatchState
  edit : Option Edit
deriving DecidableEq

/-- The plan to leave the text alone. -/
def Plan.unchanged (evidence : AppliedBy) : Plan := ⟨.applied evidence, none⟩

/-- Whether an edit is due. -/
def Plan.needsChange (p : Plan) : Bool := p.edit.isSome

/-- The text after the plan's edit, or the text itself. -/
def Plan.applyTo (p : Plan) (content : Text) : Except PatchError Text :=
  match p.edit with
  | none => .ok content
  | some e =>
    match e.applyTo content with
    | .ok after => .ok after
    | .error cause => .error (.edit cause)

/-- The only occurrence of a shape in the text, if there is one. -/
def Shape.single? (shape : Shape) (site : Site) (file content : Text) :
    Except PatchError (Option Occurrence) :=
  match shape.occurrences content with
  | [] => .ok none
  | [o] => .ok (some o)
  | os => .error (.ambiguousMatch site.id file os.length)

/-- The indentation that an occurrence of the shape shows. -/
def Shape.indentOf (shape : Shape) (o : Occurrence) : Text :=
  match shape.mark with
  | .indent => o.marked
  | .condition => []

/-- The condition that an occurrence of the shape shows. -/
def Shape.conditionOf? (shape : Shape) (o : Occurrence) : Option Text :=
  match shape.mark with
  | .indent => none
  | .condition => some o.marked

namespace Site

/-- The plan for a text in which the delivered region stands at `o`. -/
def planRewrite (s : Site) (names : NameSet) (file : Text) (o : Occurrence) : Plan :=
  if names.isEmpty then .unchanged .baseOnly
  else
    ⟨.pristine, some (.replacing file o.start o.region (s.patched (s.pristine.indentOf o) names))⟩

/-- The plan for a text in which a patched region has its condition at the byte offset `start`. The
missing checks go behind the condition, before the white space that ends it. -/
def planMerge (s : Site) (names : NameSet) (file : Text) (start : Nat) (condition : Text) : Plan :=
  let current := condition.trimEnd
  let missing := s.condition.missing current names
  if missing.isEmpty then .unchanged .mergePattern
  else
    let merged :=
      current ++ s.condition.connective ++ List.intercalate s.condition.connective missing
    ⟨.needsMerge missing, some (.replacing file start current merged)⟩

/-- The plan for a text without a region that can be rewritten or extended. -/
def planTokens (s : Site) (names : NameSet) (file content : Text) : Except PatchError Plan :=
  if s.isFullyApplied content names then .ok (.unchanged .tokens)
  else .error (.patternMismatch s.id file)

/-- The occurrence of the patched region with its condition, if the site can recognise it. -/
def mergeRegion? (s : Site) (file content : Text) :
    Except PatchError (Option (Occurrence × Text)) :=
  match s.merge with
  | none => .ok none
  | some shape =>
    match shape.single? s file content with
    | .error e => .error e
    | .ok none => .ok none
    | .ok (some o) => .ok ((shape.conditionOf? o).map fun condition => (o, condition))

/-- **The plan** for `content`, the text of `file`. -/
def plan (s : Site) (names : NameSet) (file content : Text) : Except PatchError Plan :=
  match s.pristine.single? s file content with
  | .error e => .error e
  | .ok (some o) => .ok (s.planRewrite names file o)
  | .ok none =>
    match s.mergeRegion? file content with
    | .error e => .error e
    | .ok (some (o, condition)) => .ok (s.planMerge names file o.markedStart condition)
    -- neither region stands there, so only the tokens can tell
    | .ok none => s.planTokens names file content

/-- **The patched text** of `content`. -/
def patch (s : Site) (names : NameSet) (content : Text) : Except PatchError Text :=
  match s.plan names s.path content with
  | .error e => .error e
  | .ok p => p.applyTo content

end Site

end SitePatch
