/-
  Offside/Surface/Reading.lean
  ============================
  **What a reader makes of the tokens ahead.**  Either a value and the cursor behind it,
  or the reason why there is none and the cursor where that showed.

  A reading knows a bound on the tokens left after success.  That is what lets a reader
  call itself on what another reader left over: the bound is a proof that the rest is
  shorter.
-/
import Offside.Surface.Cursor

namespace Offside.Surface

/-- The result of a reader.  After success fewer than `bound` tokens are left. -/
inductive Reading (α : Type) (bound : Nat) where
  | done (value : α) (rest : Cursor) (shorter : rest.left < bound)
  | stuck (why : Diagnostic) (rest : Cursor)

namespace Reading

variable {α β : Type} {m n : Nat}

/-- The value, or why there is none. -/
def outcome : Reading α n → Except Diagnostic α
  | done value _ _ => .ok value
  | stuck why _ => .error why

/-- The cursor reached. -/
def rest : Reading α n → Cursor
  | done _ rest _ => rest
  | stuck _ rest => rest

/-- The same reading under a larger bound. -/
def weaken (h : m ≤ n) : Reading α m → Reading α n
  | done value rest shorter => done value rest (Nat.lt_of_lt_of_le shorter h)
  | stuck why rest => stuck why rest

/-- A value read without a step. -/
def pure (value : α) (c : Cursor) : Reading α (c.left + 1) :=
  done value c (Nat.lt_succ_self _)

/-- Goes on behind a value, if there is one, with a reader that leaves no more tokens than
    it finds. -/
def andThen (x : Reading α n)
    (next : (value : α) → (c : Cursor) → c.left < n → Reading β (c.left + 1)) : Reading β n :=
  match x with
  | done value rest shorter => (next value rest shorter).weaken shorter
  | stuck why rest => stuck why rest

@[simp] theorem weaken_done (h : m ≤ n) (value : α) (c : Cursor) (hc : c.left < m) :
    (done value c hc).weaken h = done value c (Nat.lt_of_lt_of_le hc h) := rfl

@[simp] theorem weaken_stuck (h : m ≤ n) (why : Diagnostic) (c : Cursor) :
    (stuck why c : Reading α m).weaken h = stuck why c := rfl

@[simp] theorem andThen_done (value : α) (c : Cursor) (hc : c.left < n)
    (next : (value : α) → (c : Cursor) → c.left < n → Reading β (c.left + 1)) :
    (done value c hc).andThen next = (next value c hc).weaken hc := rfl

@[simp] theorem andThen_stuck (why : Diagnostic) (c : Cursor)
    (next : (value : α) → (c : Cursor) → c.left < n → Reading β (c.left + 1)) :
    (stuck why c : Reading α n).andThen next = stuck why c := rfl

end Reading

namespace Cursor

/-- Reads a token of the given kind. -/
def expectAs (c : Cursor) (kind : Kind) (expected : Expected) : Reading Token (c.left + 1) :=
  if c.kind = kind then .done c.current c.advance c.advance_lt_succ
  else .stuck (c.unexpected expected) c

/-- Reads a token of the given kind, which is also what a diagnostic asks for. -/
def expect (c : Cursor) (kind : Kind) : Reading Token (c.left + 1) :=
  c.expectAs kind (.kind kind)

/-- Reads the token that a construct begins with. -/
def expectFirst (c : Cursor) (kind : Kind) : Reading Token c.room :=
  if c.kind = kind then .done c.current c.advance c.advance_lt_room
  else .stuck (c.unexpected (.kind kind)) c

/-- Reads the end of a simple statement: the end of the logical line.  The end of a block
    or of the input will do without being stepped past. -/
def endOfLine (c : Cursor) : Reading Unit (c.left + 1) :=
  if c.kind = .newline then .done () c.advance c.advance_lt_succ
  else if c.kind = .eof ∨ c.kind = .dedent then .pure () c
  else .stuck (c.unexpected .lineEnd) c

/-- Reads what separates the members of a list in parentheses: a comma, or nothing before
    the closing parenthesis. -/
def separator (c : Cursor) (expected : Expected) : Reading Unit (c.left + 1) :=
  if c.kind = .comma then .done () c.advance c.advance_lt_succ
  else if c.kind = .closeParen then .pure () c
  else .stuck (c.unexpected expected) c

end Cursor
end Offside.Surface
