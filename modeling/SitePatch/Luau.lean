import SitePatch.Site

/-! # The sites of Luau's Analysis library

Four functions of Luau's Analysis library decide whether a call is a module import: one collects the
calls (`tracer`), two match them while types are inferred (`constraintGenerator`, `typeInfer`) and
one lints them (`linter`). The two in the middle share their text. -/

namespace SitePatch.Luau

open Pattern

/-! ## Tracer -/

/-- The statement that the tracer guards. -/
def tracerStatement : Pattern :=
  lineGap ++ word "requireCalls.push_back(expr);\n"

/-- The tracer's guard, with `require` checked among the other conditions. -/
def tracerPristine : Shape where
  lead := []
  mark := .indent
  marked := indent
  tail :=
    spaced ["if", "(", "global", "&&", "global->name", "==", "\"require\"", "&&",
      "expr->args.size", ">=", "1", ")"] ++ tracerStatement

/-- The tracer's guard, with the condition in parentheses at its end. -/
def tracerMerge : Shape where
  lead :=
    indent ++ spaced ["if", "(", "global", "&&", "expr->args.size", ">=", "1", "&&", "("]
  mark := .condition
  marked := [.atom (.run (.noneOf ['(', ')']) 1)]
  tail := spaced [")", ")"] ++ tracerStatement

/-- The patched guard of the tracer. -/
def tracerTemplate : Template :=
  [.indent, .text "if (global && expr->args.size >= 1 && (", .condition, .text "))\n",
    .indent, .text "    requireCalls.push_back(expr);\n"]

/-- **The tracer**, which collects the calls. -/
def tracer : Site where
  id := "require-tracer"
  path := "Analysis/src/RequireTracer.cpp"
  pristine := tracerPristine
  merge := some tracerMerge
  replacement := tracerTemplate
  condition := .anyOf "global->name"

/-! ## Matcher -/

/-- The statement that the matcher guards. -/
def matcherStatement : Pattern :=
  lineGap ++ word "return" ++ space ++ word "std::nullopt;\n"

/-- The matcher's guard, with `require` checked alone. -/
def matcherPristine : Shape where
  lead := []
  mark := .indent
  marked := indent
  tail :=
    spaced ["if", "(", "!funcAsGlobal", "||", "funcAsGlobal->name", "!=", "require", ")"]
      ++ matcherStatement

/-- The matcher's guard, with the condition in parentheses. -/
def matcherMerge : Shape where
  lead := indent ++ spaced ["if", "(", "!funcAsGlobal", "||", "("]
  mark := .condition
  marked :=
    spaced ["funcAsGlobal->name", "!=", "require"]
      ++ [.atom .wordEnd, .atom (.run (.noneOf ['(', ')']) 0)]
  tail := spaced [")", ")"] ++ matcherStatement

/-- The patched guard of the matcher. -/
def matcherTemplate : Template :=
  [.indent, .text "if (!funcAsGlobal || (", .condition, .text "))\n",
    .indent, .text "    return std::nullopt;\n"]

/-- A matcher in the file at `path`. -/
def matcher (id path : Text) : Site where
  id := id
  path := path
  pristine := matcherPristine
  merge := some matcherMerge
  replacement := matcherTemplate
  condition := { ConditionForm.noneOf "funcAsGlobal->name" with base := .identifier }

/-- **The constraint generator**, which matches calls for the new type inference. -/
def constraintGenerator : Site :=
  matcher "constraint-generator" "Analysis/src/ConstraintGenerator.cpp"

/-- **The type inferrer**, which matches calls for the old type inference. -/
def typeInfer : Site := matcher "type-infer" "Analysis/src/TypeInfer.cpp"

/-! ## Linter -/

/-- The linter's answer, with `require` checked alone. -/
def linterPristine : Shape where
  lead := []
  mark := .indent
  marked := indent
  tail :=
    word "return" ++ space ++ spaced ["glob->name", "==", "\"require\"", ";\n"]

/-- One more check in the linter's answer. -/
def linterRound : List Atom :=
  [.run .blank 0, .lit "||", .run .blank 0, .lit "glob->name", .run .blank 0, .lit "==",
    .run .blank 0, .lit "\"", .run (.noneOf ['"', '\n']) 0, .lit "\""]

/-- The linter's answer, with further checks. -/
def linterMerge : Shape where
  lead := indent ++ word "return" ++ space
  mark := .condition
  marked := spaced ["glob->name", "==", "\"require\""] ++ [.rounds linterRound]
  tail := gap ++ word ";\n"

/-- The patched answer of the linter. -/
def linterTemplate : Template :=
  [.indent, .text "return ", .condition, .text ";\n"]

/-- **The linter**, which warns about calls. -/
def linter : Site where
  id := "linter"
  path := "Analysis/src/Linter.cpp"
  pristine := linterPristine
  merge := some linterMerge
  replacement := linterTemplate
  condition := .anyOf "glob->name"

/-- The sites of the library, in the order in which they are patched. -/
def sites : List Site := [tracer, constraintGenerator, typeInfer, linter]

end SitePatch.Luau
