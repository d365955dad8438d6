/-
  Offside/Position.lean
  =====================
  **Places in a source text.**  A `Position` is what a user is told: a byte offset
  from the start of the text, and the line and column that go with it, both counted
  from one.  A `Span` is the stretch between two positions.

  A `Place` is what a scan of the text carries along: how far it has come, on which
  line, and where that line began.  From it every position on the current line can be
  named, also one that has not been reached yet (`Place.positionAt`).
-/
namespace Offside

/-- A location in a source text.  `offset` and `column` are measured in bytes of the
    text's UTF-8 form; `line` and `column` count from one. -/
structure Position where
  offset : Nat
  line : Nat
  column : Nat
deriving DecidableEq, Repr

/-- The position of something that stands in no text. -/
def Position.nowhere : Position := ⟨0, 0, 0⟩

instance : Inhabited Position := ⟨Position.nowhere⟩

/-- The stretch of text from `start` up to `stop`. -/
structure Span where
  start : Position
  stop : Position
deriving DecidableEq, Repr

/-- The span of something that stands in no text. -/
def Span.nowhere : Span := ⟨Position.nowhere, Position.nowhere⟩

instance : Inhabited Span := ⟨Span.nowhere⟩

/-- The empty span at the end of `s`. -/
def Span.atEnd (s : Span) : Span := ⟨s.stop, s.stop⟩

/-- The span from the start of `a` to the end of `b`. -/
def Span.cover (a b : Span) : Span := ⟨a.start, b.stop⟩

/-! ### Places -/

/-- How far a scan has come: the offset reached, the number of the line it is on, and
    the offset at which that line starts. -/
structure Place where
  offset : Nat
  line : Nat
  lineStart : Nat
deriving DecidableEq, Repr

/-- The place before the first character. -/
def Place.start : Place := ⟨0, 1, 0⟩

/-- The position of `offset` on the current line. -/
def Place.positionAt (p : Place) (offset : Nat) : Position :=
  ⟨offset, p.line, offset - p.lineStart + 1⟩

/-- The position of the place itself. -/
def Place.position (p : Place) : Position := p.positionAt p.offset

/-- The span of the next `bytes` bytes. -/
def Place.spanOf (p : Place) (bytes : Nat) : Span :=
  ⟨p.position, p.positionAt (p.offset + bytes)⟩

/-- Steps over `bytes` bytes of the current line. -/
def Place.advance (p : Place) (bytes : Nat) : Place := { p with offset := p.offset + bytes }

/-- Begins a line at the current offset. -/
def Place.newLine (p : Place) : Place := { p with line := p.line + 1, lineStart := p.offset }

end Offside
