/-
  Offside/Surface/Expression.lean
  ===============================
  **Reading expressions** by precedence climbing.  `expr` reads a head and then, as long
  as the token at the cursor is a tail that binds tighter than the given floor, lets that
  tail take the expression read so far as its left operand.

  Every reader that succeeds has stepped past a token, which its bound says, and calls
  others only at the same cursor in a fixed order or at a later one.  So the readers end
  without any limit on how deep they may go.
-/
import Offside.Surface
import Offside.Surface.Grammar
import Offside.Surface.Reading

namespace Offside.Surface

open Number

/-! ### Heads without operands -/

/-- The diagnostic for a number that cannot be read. -/
def badNumber (text : String) (position : Position) : Diagnostic :=
  ⟨.numberParse text, position⟩

/-- Reads a number or a name. -/
def literal (c : Cursor) : Reading Expr c.left :=
  let t := c.current
  if h : c.kind = .integer then
    match integer? t.value with
    | some value =>
      .done (.number value t.span) c.advance
        (Cursor.advance_lt h (by decide))
    | none => .stuck (badNumber t.value t.span.start) c
  else if h : c.kind = .float then
    match Binary64.ofText? t.value with
    | some value =>
      .done (.float value t.span) c.advance
        (Cursor.advance_lt h (by decide))
    | none => .stuck (badNumber t.value t.span.start) c
  else if h : c.kind = .identifier then
    .done (.symbol t.value t.span) c.advance (Cursor.advance_lt_of_identifier h)
  else .stuck (c.unexpected .literalOrName) c

/-- The number that a minus sign before the integer token `t` negates. -/
def negatedMagnitude (minus : Span) (t : Token) : Except Diagnostic Int :=
  if (afterHexMark? t.value.toList).isSome then
    match integer? t.value with
    | some value => .ok value.toInt
    | none => .error (badNumber t.value t.span.start)
  else
    match magnitude? t.value with
    | some value => .ok value
    | none => .error (badNumber ("-" ++ t.value) minus.start)

/-- Reads an integer token together with the minus sign before it. -/
def negatedInteger (minus : Span) (c : Cursor) (h : c.kind = .integer) :
    Reading Expr c.left :=
  match negatedMagnitude minus c.current with
  | .ok value =>
    .done (.number (negated value) (minus.cover c.current.span)) c.advance
      (Cursor.advance_lt h (by decide))
  | .error why => .stuck why c

/-- The negation of an operand; that of a float literal is a literal. -/
def negation (operand : Expr) (span : Span) : Expr :=
  match operand with
  | .float value _ => .float value.neg span
  | e => .negate e span

/-- The character that a character token stands for. -/
def charOf (t : Token) : Char := t.value.toList.headD '\x00'

/-- What is missing where the input ends and an expression should begin. -/
def missingAtEnd (g : Grammar) : Expected :=
  match g.head .eof with
  | some .literal => .literalOrName
  | some .char => .ordLiteral
  | _ => .expression

/-! ### The readers -/

mutual

/-- Reads an expression whose outermost operators bind tighter than `floor`. -/
def expr (g : Grammar) (floor : Strength) (c : Cursor) : Reading Expr c.left :=
  match g.head c.kind with
  | none => .stuck (c.unexpected .expression) c
  | some head => (headed g head c).andThen fun left c' _ => climb g floor left c'
termination_by 8 * c.left + 2

/-- Steps past the token at the cursor and reads the expression behind it. -/
def operand (g : Grammar) (floor : Strength) (c : Cursor) : Reading Expr c.left :=
  if _h : 0 < c.left then (expr g floor c.advance).weaken c.advance_le
  else .stuck (c.unexpected (missingAtEnd g)) c
termination_by 8 * c.left

/-- Reads the beginning of an expression. -/
def headed (g : Grammar) (head : Head) (c : Cursor) : Reading Expr c.left :=
  match head with
  | .literal => literal c
  | .char => .stuck (c.unexpected .ordLiteral) c
  | .minus =>
    let minus := c.current.span
    if h : c.advance.kind = .integer ∧ c.advance.peek ≠ .openParen then
      (negatedInteger minus c.advance h.1).weaken c.advance_le
    else
      (operand g .unary c).andThen fun e c' _ =>
        .pure (negation e (minus.cover e.span)) c'
  | .group =>
    (operand g .lowest c).andThen fun e c' _ =>
      (c'.expect .closeParen).andThen fun _ c'' _ => .pure e c''
termination_by 8 * c.left + 1

/-- Lets the tails that bind tighter than `floor` take `left` as their left operand. -/
def climb (g : Grammar) (floor : Strength) (left : Expr) (c : Cursor) :
    Reading Expr (c.left + 1) :=
  match g.tail c.kind with
  | none => .pure left c
  | some (strength, tail) =>
    if floor.rank < strength.rank then
      ((tailed g tail strength left c).andThen fun e c' _ => climb g floor e c').weaken
        c.left_le_succ
    else .pure left c
termination_by 8 * c.left + 5

/-- Reads the continuation of `left` at the cursor. -/
def tailed (g : Grammar) (tail : Tail) (strength : Strength) (left : Expr) (c : Cursor) :
    Reading Expr c.left :=
  match tail with
  | .arithmetic =>
    match arithmeticOf? c.kind with
    | none => .stuck ⟨.unexpectedToken c.current.value, c.position⟩ c.advance
    | some op =>
      (operand g strength c).andThen fun right c' _ =>
        .pure (.binary op left right (left.span.cover right.span)) c'
  | .comparison =>
    match comparisonOf? c.kind with
    | none => .stuck ⟨.unexpectedToken c.current.value, c.position⟩ c.advance
    | some op =>
      (operand g strength c).andThen fun right c' _ =>
        if (comparisonOf? c'.kind).isSome then .stuck (c'.unexpected .singleComparison) c'
        else .pure (.compare op left right (left.span.cover right.span)) c'
  | .connective =>
    (operand g strength c).andThen fun right c' _ =>
      .pure (.logic (connectiveOf c.kind) left right (left.span.cover right.span)) c'
  | .call =>
    match left with
    | .symbol callee span => called g callee span c
    | _ => .stuck (c.unexpected .namedCallee) c
termination_by 8 * c.left + 4

/-- Reads the arguments of a call of `callee`, from the opening parenthesis on. -/
def called (g : Grammar) (callee : String) (span : Span) (c : Cursor) :
    Reading Expr c.left :=
  if h : callee = ordName ∧ c.advance.kind = .char then
    ((c.advance.advance.expect .closeParen).andThen fun close c' _ =>
      .pure (.char (charOf c.advance.current) (span.cover close.span)) c').weaken
        (Cursor.advance_advance_lt h.2 (by decide))
  else if h : 0 < c.left then
    ((arguments g c.advance).andThen fun args c₁ _ =>
      (c₁.expect .closeParen).andThen fun close c₂ _ =>
        .pure (.call callee args (span.cover close.span)) c₂).weaken
          (Cursor.advance_lt_of_pos h)
  else operand g .lowest c
termination_by 8 * c.left + 3

/-- Reads arguments up to the closing parenthesis.  A comma may stand behind the last. -/
def arguments (g : Grammar) (c : Cursor) : Reading (List Expr) (c.left + 1) :=
  if c.kind = .closeParen then .pure [] c
  else
    ((expr g .lowest c).andThen fun e c₁ _ =>
      (c₁.separator .argumentEnd).andThen fun _ c₂ _ =>
        (arguments g c₂).andThen fun es c₃ _ => .pure (e :: es) c₃).weaken c.left_le_succ
termination_by 8 * c.left + 3

end

end Offside.Surface
