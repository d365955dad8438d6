/-
  Offside/Surface/Statement.lean
  ==============================
  **Reading statements.**  A simple statement ends with its logical line.  A compound
  statement has a block behind a colon: indented on the following lines, or one simple
  statement on the same line.
-/
import Offside.Surface.Expression

namespace Offside.Surface

/-! ### Simple statements -/

/-- Reads the rest of a statement that began with the expression `e`: an assignment to it,
    or nothing behind a call. -/
def afterExpression (g : Grammar) (e : Expr) (c : Cursor) : Reading Stmt (c.left + 1) :=
  if c.kind = .assignment then
    match e with
    | .symbol target span =>
      ((expr g .lowest c.advance).andThen fun value c₁ _ =>
        c₁.endOfLine.andThen fun _ c₂ _ =>
          .pure (.assign target value (span.cover value.span)) c₂).weaken c.advance_le_succ
    | _ => .stuck (c.unexpected .plainTarget) c
  else
    match e with
    | .call _ _ span => c.endOfLine.andThen fun _ c' _ => .pure (.perform e span) c'
    | _ => .stuck (c.unexpected .assignmentOrCall) c

/-- Reads an assignment or a call. -/
def assignmentOrCall (g : Grammar) (c : Cursor) : Reading Stmt c.left :=
  (expr g .lowest c).andThen fun e c' _ => afterExpression g e c'

/-- Steps past the first token of a statement that has nothing else on its line. -/
def oneWord (make : Span → Stmt) (c : Cursor) : Reading Stmt c.room :=
  (c.advance.endOfLine.andThen fun _ c' _ => .pure (make c.current.span) c').weaken
    c.advance_lt_room

/-- Reads `return` and the value behind it, if there is one. -/
def returnStmt (g : Grammar) (c : Cursor) : Reading Stmt c.room :=
  let c₁ := c.advance
  let start := c.position
  if c₁.kind = .newline ∨ c₁.kind = .eof ∨ c₁.kind = .dedent then
    (c₁.endOfLine.andThen fun _ c' _ => .pure (.ret none ⟨start, c₁.previousEnd⟩) c').weaken
      c.advance_lt_room
  else
    ((expr g .lowest c₁).andThen fun value c₂ _ =>
      c₂.endOfLine.andThen fun _ c₃ _ =>
        .pure (.ret (some value) ⟨start, c₂.previousEnd⟩) c₃).weaken
          c.advance_le_room

/-- Holds for the tokens that begin a statement with a line of its own. -/
def isCompound (k : Kind) : Bool := k = .ifWord || k = .whileWord || k = .defWord

/-! ### Compound statements -/

mutual

/-- Reads a statement. -/
def stmt (g : Grammar) (c : Cursor) : Reading Stmt c.room :=
  match g.lead c.kind with
  | some lead => ledStmt g lead c
  | none => (assignmentOrCall g c).weaken c.left_le_room
termination_by 8 * c.left + 2

/-- Reads the statement that the token at the cursor leads. -/
def ledStmt (g : Grammar) (lead : Lead) (c : Cursor) : Reading Stmt c.room :=
  match lead with
  | .ifLead => ifStmt g c
  | .whileLead => whileStmt g c
  | .returnLead => returnStmt g c
  | .passLead => oneWord .pass c
  | .breakLead => oneWord .brk c
  | .continueLead => oneWord .cont c
termination_by 8 * c.left + 1

/-- Reads `if` or `elif`, its condition, its block and what is done otherwise. -/
def ifStmt (g : Grammar) (c : Cursor) : Reading Stmt c.room :=
  ((expr g .lowest c.advance).andThen fun condition c₁ _ =>
    (block g c₁).andThen fun body c₂ _ =>
      otherwise g c.position condition body c₂).weaken c.advance_le_room
termination_by 8 * c.left
decreasing_by all_goals simp only [Cursor.advance_left] at *; omega

/-- Reads the rest of a statement that began at `start` with a condition and a block. -/
def otherwise (g : Grammar) (start : Position) (condition : Expr) (body : Block Stmt)
    (c : Cursor) : Reading Stmt (c.left + 1) :=
  if c.kind = .elifWord then
    ((ifStmt g c).andThen fun nested c' _ =>
      .pure (.ifElse condition body ⟨[nested], nested.span⟩ ⟨start, c'.previousEnd⟩) c').weaken
        c.room_le_succ
  else if c.kind = .elseWord then
    ((block g c.advance).andThen fun orElse c' _ =>
      .pure (.ifElse condition body orElse ⟨start, c'.previousEnd⟩) c').weaken
        c.advance_succ_le_succ
  else .pure (.ifThen condition body ⟨start, c.previousEnd⟩) c
termination_by 8 * c.left + 5

/-- Reads `while`, its condition and its block. -/
def whileStmt (g : Grammar) (c : Cursor) : Reading Stmt c.room :=
  ((expr g .lowest c.advance).andThen fun condition c₁ _ =>
    (block g c₁).andThen fun body c₂ _ =>
      .pure (.whileDo condition body ⟨c.position, c₂.previousEnd⟩) c₂).weaken
        c.advance_le_room
termination_by 8 * c.left
decreasing_by all_goals simp only [Cursor.advance_left] at *; omega

/-- Reads a block from its colon on. -/
def block (g : Grammar) (c : Cursor) : Reading (Block Stmt) (c.left + 1) :=
  (c.expect .colon).andThen fun _ c₁ _ =>
    if c₁.kind = .newline then
      ((c₁.advance.expectAs .indent .indentedBlock).andThen fun _ c₂ _ =>
        (stmts g c₂).andThen fun body c₃ _ =>
          (c₃.expect .dedent).andThen fun _ c₄ _ =>
            .pure ⟨body, ⟨c₁.position, c₃.previousEnd⟩⟩ c₄).weaken
              c₁.advance_succ_le_succ
    else if isCompound c₁.kind then .stuck (c₁.unexpected .simpleStatement) c₁
    else
      ((stmt g c₁).andThen fun s c₂ _ => .pure ⟨[s], s.span⟩ c₂).weaken c₁.room_le_succ
termination_by 8 * c.left + 4
decreasing_by
  all_goals try simp only [Cursor.advance_left] at *
  all_goals omega

/-- Reads statements up to the end of the block. -/
def stmts (g : Grammar) (c : Cursor) : Reading (List Stmt) (c.left + 1) :=
  if _h : c.kind = .dedent ∨ c.kind = .eof then .pure [] c
  else
    ((stmt g c).andThen fun s c₁ _ =>
      (stmts g c₁).andThen fun ss c₂ _ => .pure (s :: ss) c₂).weaken c.room_le_succ
termination_by 8 * c.left + 3
decreasing_by
  all_goals
    have := Cursor.left_pos (c := c) (fun hc => _h (Or.inr hc))
    try simp only [Cursor.room] at *
    omega

end

end Offside.Surface
