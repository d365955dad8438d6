/-
  Offside/Surface/Cursor.lean
  ===========================
  **A place among tokens.**  A cursor has the tokens that are still ahead and, behind
  them, the end of the input, which is there even if the tokens did not bring it and
  which no step goes past.  It remembers the token before it, whose end is where the last
  construct stops.

  `Cursor.left` counts the tokens ahead; the readers end because it falls.
-/
import Offside.Diagnostic
import Offside.Token

namespace Offside.Surface

/-- What the token expected at some place should have been. -/
inductive Expected where
  | kind (k : Kind)
  | expression
  | literalOrName
  | ordLiteral
  | singleComparison
  | namedCallee
  | argumentEnd
  | plainTarget
  | assignmentOrCall
  | lineEnd
  | simpleStatement
  | indentedBlock
  | moduleName
  | importName
  | importSignatureEnd
  | functionName
  | parameterName
  | parameterType
  | parameterEnd
  | typeName
  | importOrDefinition
  | other (message : String)
deriving DecidableEq, Repr

def Expected.message : Expected → String
  | kind k => "expected " ++ k.name
  | expression => "expected an expression"
  | literalOrName => "expected a literal or a name"
  | ordLiteral => "character literals are only allowed as the argument of `ord`"
  | singleComparison => "chained comparisons are not supported, use `and`"
  | namedCallee => "only named functions can be called"
  | argumentEnd => "expected `,` or `)` in argument list"
  | plainTarget => "only a plain name can be assigned to"
  | assignmentOrCall => "expected `=` after expression, only calls may stand alone"
  | lineEnd => "expected end of line"
  | simpleStatement => "compound statements must start on their own line"
  | indentedBlock => "expected an indented block"
  | moduleName => "expected a module name after `from`"
  | importName => "expected a function name to import"
  | importSignatureEnd => "expected `,` or `)` in import signature"
  | functionName => "expected a function name after `def`"
  | parameterName => "expected a parameter name"
  | parameterType => "parameters need a type annotation such as `: int`"
  | parameterEnd => "expected `,` or `)` in parameter list"
  | typeName => "expected a type name"
  | importOrDefinition => "only `from ... import` and `def` are allowed at module level"
  | other message => message

/-- The text and the span of the end of the input. -/
structure InputEnd where
  value : String
  span : Span
deriving DecidableEq, Repr

/-- The end of the input as a token. -/
def InputEnd.token (e : InputEnd) : Token := ⟨.eof, e.value, e.span⟩

/-- A place among tokens. -/
structure Cursor where
  previous : Option Token
  ahead : List Token
  inputEnd : InputEnd
deriving DecidableEq, Repr

namespace Cursor

/-- The place before the first token.  If the last token is not the end of the input, the
    input ends where that token does. -/
def ofTokens (tokens : List Token) : Cursor :=
  match tokens.getLast? with
  | none => ⟨none, [], ⟨"", Span.nowhere⟩⟩
  | some t =>
    if t.kind = .eof then ⟨none, tokens.dropLast, ⟨t.value, t.span⟩⟩
    else ⟨none, tokens, ⟨"", t.span.atEnd⟩⟩

/-- The number of tokens ahead, the end of the input not counted. -/
def left (c : Cursor) : Nat := c.ahead.length

/-- The token at the cursor. -/
def current (c : Cursor) : Token :=
  match c.ahead with
  | t :: _ => t
  | [] => c.inputEnd.token

/-- The kind of the token at the cursor. -/
def kind (c : Cursor) : Kind := c.current.kind

/-- The kind of the token after that. -/
def peek (c : Cursor) : Kind :=
  match c.ahead with
  | _ :: t :: _ => t.kind
  | _ => .eof

/-- Steps past the token at the cursor, but not past the end of the input. -/
def advance (c : Cursor) : Cursor :=
  match c.ahead with
  | t :: ts => { c with previous := some t, ahead := ts }
  | [] => c

/-- Where the token at the cursor starts. -/
def position (c : Cursor) : Position := c.current.span.start

/-- Where the last token stepped past ends. -/
def previousEnd (c : Cursor) : Position :=
  match c.previous with
  | some t => t.span.stop
  | none => c.position

/-- The diagnostic for the token at the cursor. -/
def unexpected (c : Cursor) (expected : Expected) : Diagnostic :=
  ⟨.unexpectedTokenDetailed c.current.text expected.message, c.position⟩

/-- A bound on the tokens left after at least one step.  There is room for one step even
    at the end of the input, where a step changes nothing. -/
def room (c : Cursor) : Nat := max 1 c.left

theorem left_pos {c : Cursor} (h : c.kind ≠ .eof) : 0 < c.left := by
  cases hc : c.ahead with
  | nil => exact absurd (by simp [kind, current, hc, InputEnd.token]) h
  | cons t ts => simp [left, hc]

theorem left_pos_of_kind {c : Cursor} {k : Kind} (h : c.kind = k) (hk : k ≠ .eof) :
    0 < c.left :=
  left_pos (h ▸ hk)

@[simp] theorem advance_left (c : Cursor) : c.advance.left = c.left - 1 := by
  unfold advance left
  split <;> simp_all

/-! ### Bounds on the tokens left -/

theorem left_le_succ (c : Cursor) : c.left ≤ c.left + 1 := Nat.le_succ _

theorem left_le_room (c : Cursor) : c.left ≤ c.room := Nat.le_max_right _ _

theorem room_le_succ (c : Cursor) : c.room ≤ c.left + 1 := by
  rw [room]; omega

theorem advance_le (c : Cursor) : c.advance.left ≤ c.left := by
  rw [advance_left]; omega

theorem advance_le_succ (c : Cursor) : c.advance.left ≤ c.left + 1 :=
  Nat.le_succ_of_le c.advance_le

theorem advance_succ_le_succ (c : Cursor) : c.advance.left + 1 ≤ c.left + 1 :=
  Nat.succ_le_succ c.advance_le

theorem advance_lt_succ (c : Cursor) : c.advance.left < c.left + 1 :=
  Nat.lt_succ_of_le c.advance_le

theorem advance_lt_room (c : Cursor) : c.advance.left < c.room := by
  rw [advance_left, room]; omega

theorem advance_le_room (c : Cursor) : c.advance.left ≤ c.room :=
  Nat.le_of_lt c.advance_lt_room

theorem advance_lt_of_pos {c : Cursor} (h : 0 < c.left) : c.advance.left < c.left := by
  rw [advance_left]; omega

theorem advance_lt {c : Cursor} {k : Kind} (h : c.kind = k) (hk : k ≠ .eof) :
    c.advance.left < c.left :=
  advance_lt_of_pos (left_pos_of_kind h hk)

theorem advance_lt_of_identifier {c : Cursor} (h : c.kind = .identifier) :
    c.advance.left < c.left :=
  advance_lt h (by decide)

theorem advance_advance_lt {c : Cursor} {k : Kind} (h : c.advance.kind = k) (hk : k ≠ .eof) :
    c.advance.advance.left < c.left :=
  Nat.lt_of_lt_of_le (advance_lt h hk) c.advance_le

end Cursor
end Offside.Surface
