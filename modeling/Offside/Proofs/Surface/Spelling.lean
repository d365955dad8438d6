/-
  Offside/Proofs/Surface/Spelling.lean
  ====================================
  **Reading without looking at places.**  A reader decides by what the tokens ahead say,
  their `Spelling`; where they stand goes into spans and diagnostics only.  So what a
  reader gives can be told by the spellings it goes past and the tree without its spans.

  `Reading.Gives` says that a reader succeeds, with a value of some property and with the
  given spellings still ahead.  It is carried through a sequence of readers step by step
  (`Reading.Gives.andThen`), each step having what the one before has left over.
-/
import Offside.Surface.Definition

namespace Offside

/-- What a token says, wherever it stands. -/
structure Spelling where
  kind : Kind
  value : String
deriving DecidableEq, Repr

def Token.spelling (t : Token) : Spelling := ⟨t.kind, t.value⟩

namespace Surface

/-! ### Trees without spans -/

def TypeExpr.bare (t : TypeExpr) : TypeExpr := ⟨t.name, .nowhere⟩

mutual

/-- The expression without its spans. -/
def Expr.bare : Expr → Expr
  | .number value _ => .number value .nowhere
  | .float value _ => .float value .nowhere
  | .char value _ => .char value .nowhere
  | .symbol name _ => .symbol name .nowhere
  | .binary op left right _ => .binary op left.bare right.bare .nowhere
  | .compare op left right _ => .compare op left.bare right.bare .nowhere
  | .logic op left right _ => .logic op left.bare right.bare .nowhere
  | .negate operand _ => .negate operand.bare .nowhere
  | .call callee arguments _ => .call callee (bareExprs arguments) .nowhere

def bareExprs : List Expr → List Expr
  | [] => []
  | e :: es => e.bare :: bareExprs es

end

mutual

/-- The statement without its spans. -/
def Stmt.bare : Stmt → Stmt
  | .assign target value _ => .assign target value.bare .nowhere
  | .perform call _ => .perform call.bare .nowhere
  | .ifThen condition body _ => .ifThen condition.bare body.bare .nowhere
  | .ifElse condition body orElse _ => .ifElse condition.bare body.bare orElse.bare .nowhere
  | .whileDo condition body _ => .whileDo condition.bare body.bare .nowhere
  | .ret value _ => .ret (value.map Expr.bare) .nowhere
  | .pass _ => .pass .nowhere
  | .brk _ => .brk .nowhere
  | .cont _ => .cont .nowhere

def Block.bare : Block Stmt → Block Stmt
  | ⟨body, _⟩ => ⟨bareStmts body, .nowhere⟩

def bareStmts : List Stmt → List Stmt
  | [] => []
  | s :: ss => s.bare :: bareStmts ss

end

def ImportSignature.bare (s : ImportSignature) : ImportSignature :=
  ⟨s.params.map TypeExpr.bare, s.result.map TypeExpr.bare⟩

def Import.bare (i : Import) : Import :=
  ⟨i.module, i.name, i.signature.map ImportSignature.bare, .nowhere⟩

def Parameter.bare (p : Parameter) : Parameter := ⟨p.name, p.type.bare, .nowhere⟩

def Function.bare (f : Function) : Function :=
  ⟨f.name, f.params.map Parameter.bare, f.result.map TypeExpr.bare, f.body.bare, .nowhere⟩

/-- The program without its spans. -/
def Program.bare (p : Program) : Program :=
  ⟨p.imports.map Import.bare, p.functions.map Function.bare⟩

/-! ### The spellings ahead -/

/-- The kind of the first of some spellings, behind which the input ends. -/
def nextKind : List Spelling → Kind
  | [] => .eof
  | s :: _ => s.kind

@[simp] theorem nextKind_cons (s : Spelling) (w : List Spelling) :
    nextKind (s :: w) = s.kind := rfl

namespace Cursor

/-- What the tokens ahead say. -/
def spellings (c : Cursor) : List Spelling := c.ahead.map Token.spelling

theorem kind_eq (c : Cursor) : c.kind = nextKind c.spellings := by
  cases hc : c.ahead with
  | nil => simp [kind, current, spellings, hc, nextKind, InputEnd.token]
  | cons t ts => simp [kind, current, spellings, hc, nextKind, Token.spelling]

theorem peek_eq (c : Cursor) : c.peek = nextKind c.spellings.tail := by
  cases hc : c.ahead with
  | nil => simp [peek, spellings, hc, nextKind]
  | cons t ts =>
    cases ts with
    | nil => simp [peek, spellings, hc, nextKind]
    | cons t' ts => simp [peek, spellings, hc, nextKind, Token.spelling]

@[simp] theorem spellings_advance (c : Cursor) : c.advance.spellings = c.spellings.tail := by
  cases hc : c.ahead with
  | nil => simp [advance, spellings, hc]
  | cons t ts => simp [advance, spellings, hc]

theorem left_eq (c : Cursor) : c.left = c.spellings.length := by
  rw [left, spellings, List.length_map]

section Ahead

variable {c : Cursor} {s : Spelling} {w : List Spelling}

theorem kind_of (h : c.spellings = s :: w) : c.kind = s.kind := by rw [kind_eq, h]; rfl

theorem value_of (h : c.spellings = s :: w) : c.current.value = s.value := by
  cases hc : c.ahead with
  | nil => simp [spellings, hc] at h
  | cons t ts =>
    simp only [spellings, hc, List.map_cons, List.cons.injEq] at h
    rw [← h.1, current, hc]
    rfl

theorem advance_of (h : c.spellings = s :: w) : c.advance.spellings = w := by
  rw [spellings_advance, h, List.tail_cons]

theorem left_pos_of (h : c.spellings = s :: w) : 0 < c.left := by
  rw [left_eq, h]
  exact Nat.succ_pos _

end Ahead
end Cursor

/-! ### What a reader gives -/

namespace Reading

variable {α β : Type} {m n : Nat} {P : α → Prop} {Q : β → Prop} {r r' : List Spelling}

/-- Holds if the reader succeeds with a value in `P` and has `r` still ahead. -/
def Gives (x : Reading α n) (P : α → Prop) (r : List Spelling) : Prop :=
  ∃ value rest shorter, x = .done value rest shorter ∧ P value ∧ rest.spellings = r

theorem gives_done {value : α} {c : Cursor} {shorter : c.left < n} (hP : P value)
    (hc : c.spellings = r) : (Reading.done value c shorter).Gives P r :=
  ⟨value, c, shorter, rfl, hP, hc⟩

theorem gives_pure {value : α} {c : Cursor} (hP : P value) (hc : c.spellings = r) :
    (Reading.pure value c).Gives P r := gives_done hP hc

theorem Gives.weaken {x : Reading α m} (h : x.Gives P r) (hmn : m ≤ n) :
    (x.weaken hmn).Gives P r := by
  obtain ⟨value, rest, shorter, rfl, hP, hrest⟩ := h
  exact gives_done hP hrest

/-- A sequence gives what its second reader gives behind the first. -/
theorem Gives.andThen {x : Reading α n} (h : x.Gives P r)
    {next : (value : α) → (c : Cursor) → c.left < n → Reading β (c.left + 1)}
    (hnext : ∀ value c shorter, P value → c.spellings = r →
      (next value c shorter).Gives Q r') :
    (x.andThen next).Gives Q r' := by
  obtain ⟨value, rest, shorter, rfl, hP, hrest⟩ := h
  exact (hnext value rest shorter hP hrest).weaken shorter

end Reading

namespace Cursor

variable {c : Cursor} {k : Kind} {v : String} {w : List Spelling}

theorem expectAs_gives (h : c.spellings = ⟨k, v⟩ :: w) (expected : Expected) :
    (c.expectAs k expected).Gives (·.value = v) w := by
  rw [expectAs, if_pos (kind_of h)]
  exact Reading.gives_done (value_of h) (advance_of h)

theorem expect_gives (h : c.spellings = ⟨k, v⟩ :: w) :
    (c.expect k).Gives (·.value = v) w := expectAs_gives h _

theorem expectFirst_gives (h : c.spellings = ⟨k, v⟩ :: w) :
    (c.expectFirst k).Gives (·.value = v) w := by
  rw [expectFirst, if_pos (kind_of h)]
  exact Reading.gives_done (value_of h) (advance_of h)

theorem endOfLine_gives (h : c.spellings = ⟨.newline, v⟩ :: w) :
    c.endOfLine.Gives (fun _ => True) w := by
  rw [endOfLine, if_pos (kind_of h)]
  exact Reading.gives_done trivial (advance_of h)

theorem separator_comma (h : c.spellings = ⟨.comma, v⟩ :: w) (expected : Expected) :
    (c.separator expected).Gives (fun _ => True) w := by
  rw [separator, if_pos (kind_of h)]
  exact Reading.gives_done trivial (advance_of h)

theorem separator_close (h : c.spellings = ⟨.closeParen, v⟩ :: w) (expected : Expected) :
    (c.separator expected).Gives (fun _ => True) (⟨.closeParen, v⟩ :: w) := by
  have hkind : c.kind = .closeParen := kind_of h
  rw [separator, if_neg (by rw [hkind]; decide), if_pos hkind]
  exact Reading.gives_pure trivial h

end Cursor
end Surface
end Offside
