import SitePatch.Names

/-! # Conditions — the boolean text that a site evaluates

A site reads one field and compares it with the base name and with every extra name. A site that
accepts calls joins equality checks by `||`, a site that rejects calls joins inequality checks by
`&&`. `ConditionForm` holds the choices of one site; `ConditionForm.build` writes the whole
condition and `ConditionForm.missing` lists the checks that an existing condition lacks. -/

namespace SitePatch

/-- **How a site compares its field**, which also decides how checks are joined. -/
inductive Comparison
  /-- Equality checks, of which one has to hold. -/
  | equal
  /-- Inequality checks, of which all have to hold. -/
  | notEqual
deriving DecidableEq, Repr

/-- The comparison operator. -/
def Comparison.operator : Comparison → Text
  | equal => "=="
  | notEqual => "!="

/-- What stands between two checks, with the spaces around it. -/
def Comparison.connective : Comparison → Text
  | equal => " || "
  | notEqual => " && "

/-- How the base name is written at a site. -/
inductive BaseSpelling
  /-- As a string literal. -/
  | literal
  /-- As the bare word, which names a variable that holds the string. -/
  | identifier
deriving DecidableEq, Repr

/-- **The form of the conditions of one site**: the field, the comparison and the spelling of the
base name. -/
structure ConditionForm where
  field : Text
  comparison : Comparison
  base : BaseSpelling
deriving DecidableEq

namespace ConditionForm

/-- The form that asks whether the field is any of the names. -/
def anyOf (field : Text) : ConditionForm := ⟨field, .equal, .literal⟩

/-- The form that asks whether the field is none of the names. -/
def noneOf (field : Text) : ConditionForm := ⟨field, .notEqual, .literal⟩

/-- What stands between two checks. -/
def connective (f : ConditionForm) : Text := f.comparison.connective

/-- The field, the operator and an operand, one space apart. -/
def compare (f : ConditionForm) (operand : Text) : Text :=
  f.field ++ " " ++ f.comparison.operator ++ " " ++ operand

/-- The check of one name, which is written as a string literal. -/
def check (f : ConditionForm) (name : Text) : Text := f.compare ("\"" ++ name ++ "\"")

/-- The check of the base name. -/
def baseCheck (f : ConditionForm) : Text :=
  match f.base with
  | .literal => f.check baseName
  | .identifier => f.compare baseName

/-- One check for each extra name, in the order of the set. -/
def checks (f : ConditionForm) (names : NameSet) : List Text := names.toList.map f.check

/-- The check of the base name, then one for each extra name. Together in one text they show that a
file is fully patched. -/
def tokens (f : ConditionForm) (names : NameSet) : List Text := f.baseCheck :: f.checks names

/-- The whole condition. -/
def build (f : ConditionForm) (names : NameSet) : Text :=
  List.intercalate f.connective (f.tokens names)

/-- The checks of the extra names that do not stand in `condition` as they are. -/
def missing (f : ConditionForm) (condition : Text) (names : NameSet) : List Text :=
  (f.checks names).filter fun check => !check.occursIn condition

/-- Without extra names, there are no extra checks. -/
@[simp] theorem checks_empty (f : ConditionForm) : f.checks .empty = [] := rfl

/-- Without extra names, a condition is the check of the base name. -/
@[simp] theorem build_empty (f : ConditionForm) : f.build .empty = f.baseCheck := by
  simp [build, tokens, List.intercalate]

/-- A check is missing exactly when it belongs to an extra name and does not occur. -/
theorem mem_missing {f : ConditionForm} {condition check : Text} {names : NameSet} :
    check ∈ f.missing condition names ↔
      check ∈ f.checks names ∧ check.occursIn condition = false := by
  simp [missing]

end ConditionForm

end SitePatch
