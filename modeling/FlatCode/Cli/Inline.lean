import FlatCode.Text.CodePoint

/-!
# Programs on the command line

A program on the command line has semicolons instead of line ends. A semicolon inside double quotes
stays; a backslash inside quotes takes away the meaning of the next character.
-/

namespace FlatCode.Cli

/-- Where a character stands with regard to quotes. -/
inductive Quotation where
  | outside
  | inside
  /-- Inside, behind a backslash. -/
  | escaped
  deriving DecidableEq, Repr

/-- Where the next character stands. -/
def Quotation.next : Quotation → CodePoint → Quotation
  | .outside, c => if c = .char '"' then .inside else .outside
  | .inside, c => if c = .char '\\' then .escaped else if c = .char '"' then .outside else .inside
  | .escaped, _ => .inside

/-- The text with line feeds for the semicolons outside quotes. -/
def splitInlineFrom : Quotation → Text → Text
  | _, [] => []
  | place, c :: rest =>
    (if place = .outside ∧ c = .char ';' then .char '\n' else c)
      :: splitInlineFrom (place.next c) rest

/-- The lines of a program on the command line. -/
def splitInline (source : Text) : Text := splitInlineFrom .outside source

end FlatCode.Cli
