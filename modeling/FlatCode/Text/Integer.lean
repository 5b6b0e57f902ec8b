import FlatCode.Text.Blank
import FlatCode.Text.Digit

/-!
# Integers written by hand

An integer as a person may write it: blanks around it, a sign, decimal digits of any script, and
single underscores between digits. It has at most `maxIntegerDigits` digits.
-/

namespace FlatCode.Text

/-- The number of digits that an integer may have. -/
def maxIntegerDigits : Nat := 4300

/-- The blanks that may stand around an integer: all but the four ASCII separators. -/
def isPadding (c : Char) : Bool := isBlank (.char c) && !(0x1C ≤ c.toNat && c.toNat ≤ 0x1F)

/-- The values of digits with single underscores between them. -/
def digitValues? : List Char → Option (List Nat)
  | [] => none
  | [c] => (digitValue? c).map fun d => [d]
  | c :: '_' :: rest =>
    match digitValue? c, digitValues? rest with
    | some d, some ds => some (d :: ds)
    | _, _ => none
  | c :: rest =>
    match digitValue? c, digitValues? rest with
    | some d, some ds => some (d :: ds)
    | _, _ => none

/-- The integer of a text. -/
def integer? (s : List Char) : Option Int :=
  let s := ((s.dropWhile isPadding).reverse.dropWhile isPadding).reverse
  let (negative, digits) := match s with
    | '-' :: rest => (true, rest)
    | '+' :: rest => (false, rest)
    | _ => (false, s)
  match digitValues? digits with
  | none => none
  | some ds =>
    if maxIntegerDigits < ds.length then none
    else
      let n : Nat := ds.foldl (fun n d => 10 * n + d) 0
      some (if negative then -(n : Int) else n)

end FlatCode.Text
