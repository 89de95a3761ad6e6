import SitePatch.Text

/-! # Printed text — spans in terminal styles

What is printed is a list of lines, and a line is a list of spans, each plain or in one `Style`. The
styles show only where colours are wanted: `Span.render` puts the terminal's control sequences
around a styled span. Without colours only the text is left (`Span.render_false`). -/

namespace SitePatch

/-- **A terminal style.** -/
inductive Style
  | bold
  | dim
  | red
  | green
  | yellow
  | cyan
deriving DecidableEq, Repr

namespace Style

/-- The number that the terminal knows the style by. -/
def number : Style → Text
  | bold => "1"
  | dim => "2"
  | red => "31"
  | green => "32"
  | yellow => "33"
  | cyan => "36"

/-- The control sequence that starts the style. -/
def start (s : Style) : Text := "\x1b[" ++ s.number ++ "m"

/-- The control sequence that ends every style. -/
def stop : Text := "\x1b[0m"

/-- The text with the style started again behind each control sequence in it that ends it. -/
def restart (s : Style) : Text → Text
  | '\x1b' :: '[' :: '0' :: 'm' :: cs => stop ++ s.start ++ restart s cs
  | c :: cs => c :: restart s cs
  | [] => []

end Style

/-- **A span**: text in one style, or plain. -/
structure Span where
  style : Option Style
  text : Text
deriving DecidableEq

namespace Span

/-- Text without a style. -/
def plain (t : Text) : Span := ⟨none, t⟩

/-- Text in a style. -/
def styled (s : Style) (t : Text) : Span := ⟨some s, t⟩

/-- The characters that are printed for a span. -/
def render (coloured : Bool) (s : Span) : Text :=
  match coloured, s.style with
  | true, some style => style.start ++ style.restart s.text ++ Style.stop
  | _, _ => s.text

/-- Without colours the text is printed as it is. -/
@[simp] theorem render_false (s : Span) : s.render false = s.text := rfl

/-- A plain line is printed as it is. -/
@[simp] theorem render_plain (coloured : Bool) (t : Text) : (plain t).render coloured = t := by
  cases coloured <;> rfl

end Span

/-- **A line** of printed text. What ends the line is part of its last span. -/
abbrev Line := List Span

namespace Line

/-- The line of the spans. -/
def ofSpans (spans : List Span) : Line := spans ++ [.plain "\n"]

/-- A line of plain text. -/
def plain (t : Text) : Line := ofSpans [.plain t]

/-- A line in one style. -/
def styled (s : Style) (t : Text) : Line := ofSpans [.styled s t]

/-- The empty line. -/
def blank : Line := [.plain "\n"]

/-- The characters that are printed for a line. -/
def render (coloured : Bool) (l : Line) : Text := l.flatMap (Span.render coloured)

/-- The characters that are printed for lines. -/
def renderAll (coloured : Bool) (ls : List Line) : Text := ls.flatMap (render coloured)

/-- A line of spans is printed span by span, and ended. -/
@[simp] theorem render_ofSpans (coloured : Bool) (spans : List Span) :
    (ofSpans spans).render coloured = render coloured spans ++ ['\n'] := by
  simp [ofSpans, render]

end Line

end SitePatch
