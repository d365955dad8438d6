/-
  Offside/Report.lean
  ===================
  **A diagnostic under its source line.**  A report names the cause, the file, and shows
  the line with a caret under the place:

      Error: TypeMatchError (Expected type `int`, received `float`)
      -> area.py
         |
      20 | x = 1 + 2.0
         | --------^

  A place at the very end of the text is shown behind its last line.  The line is shown
  without the blanks it begins and ends with.
-/
import Offside.Diagnostic
import Offside.Text.Utf8

namespace Offside

/-! ### Physical lines -/

/-- The lines of a text, each with the line feed that ends it. -/
def physicalLines (text : List Char) : List (List Char) :=
  match text with
  | [] => []
  | c :: cs =>
    match _h : (c :: cs).dropWhile (· ≠ '\n') with
    | [] => [c :: cs]
    | lineFeed :: after => ((c :: cs).takeWhile (· ≠ '\n') ++ [lineFeed]) :: physicalLines after
termination_by text.length
decreasing_by
  have := (List.dropWhile_suffix (l := c :: cs) (· ≠ '\n')).length_le
  rw [_h] at this
  simp at this ⊢
  omega

/-- A line without what ends it: a line feed, or a carriage return and a line feed. -/
def withoutEnd (line : List Char) : List Char :=
  match line.reverse with
  | '\n' :: '\r' :: cs => cs.reverse
  | '\n' :: cs => cs.reverse
  | _ => line

/-- A line of a source text by its number, and an offset in it. -/
structure SourceLine where
  number : Nat
  text : List Char
  offset : Nat
deriving DecidableEq, Repr

/-- The line with the byte offset `position`, among lines of which the first has the given
    number and begins at the byte offset `start`. -/
def lineAmong (number start position : Nat) : List (List Char) → Option SourceLine
  | [] => none
  | line :: more =>
    let stop := start + Text.byteLength line
    if start ≤ position ∧ position < stop then some ⟨number, line, position - start⟩
    else lineAmong (number + 1) stop position more

/-- The last of the lines, with the place behind its text. -/
def lastLine (lines : List (List Char)) : SourceLine :=
  let text := withoutEnd (lines.getLastD [])
  ⟨max lines.length 1, text, Text.byteLength text⟩

/-- The line with the byte offset `position`.  The end of the text belongs to the last
    line. -/
def lineAt (source : List Char) (position : Nat) : Option SourceLine :=
  let lines := physicalLines source
  match lineAmong 1 0 position lines with
  | some line => some line
  | none => if position = Text.byteLength source then some (lastLine lines) else none

/-! ### Blanks -/

/-- Holds for the characters with the Unicode property White_Space, a closed list of 25. -/
def Text.isBlank (c : Char) : Bool :=
  let n := c.toNat
  (9 ≤ n && n ≤ 13) || n == 0x20 || n == 0x85 || n == 0xA0 || n == 0x1680 ||
    (0x2000 ≤ n && n ≤ 0x200A) || n == 0x2028 || n == 0x2029 || n == 0x202F ||
    n == 0x205F || n == 0x3000

/-- The text without the blank characters at its end. -/
def Text.trimEnd (cs : List Char) : List Char := (cs.reverse.dropWhile isBlank).reverse

/-! ### Reports -/

/-- Holds for the blanks that a line is shown without at its beginning. -/
def isMargin (c : Char) : Bool := c = ' ' || c = '\t'

/-- The first row of a report. -/
def headRow (cause : Cause) : String :=
  match cause.tip? with
  | none => "Error: " ++ cause.name ++ "\n"
  | some tip => "Error: " ++ cause.name ++ " (" ++ tip ++ ")\n"

/-- The bar that sets the margin off, under a line number of the given width. -/
def barRow (width : Nat) : String := String.ofList (List.replicate (width + 1) ' ') ++ "|"

/-- The rows that show a line and the place in it. -/
def lineRows (line : SourceLine) : String :=
  let number := toString line.number
  let margin := (line.text.takeWhile isMargin).length
  let shown := Text.trimEnd (line.text.dropWhile isMargin)
  let dashes := String.ofList (List.replicate (line.offset - margin) '-')
  let bar := barRow number.length
  bar ++ "\n" ++ number ++ " | " ++ String.ofList shown ++ "\n" ++ bar ++ " " ++ dashes ++ "^\n"

/-- The report of a diagnostic of the text `source` in the file `file`. -/
def Diagnostic.report (d : Diagnostic) (source file : String) : String :=
  let rows :=
    match lineAt source.toList d.position.offset with
    | none => "   " ++ d.message ++ "\n"
    | some line => lineRows line
  headRow d.cause ++ "-> " ++ file ++ "\n" ++ rows

end Offside
