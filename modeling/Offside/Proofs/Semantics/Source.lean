/-
  Offside/Proofs/Semantics/Source.lean
  ====================================
  **The meaning of the typed tree.**  Integers are taken as integers and brought back into
  32 bits after each operation; a quotient is truncated, and there is none by zero, nor of
  the least integer by minus one.  A comparison is true or false, and `and` and `or` look at
  both of their sides, the left one first.  The types in the tree are not looked at: a value
  shows what it is, and the rules say nothing about values that do not fit.
-/
import Offside.Proofs.Semantics.Run
import Offside.Typed

namespace Offside.Typed

open Number

/-- What an expression comes to. -/
inductive Value where
  | num (value : Num)
  | truth (value : Bool)
  | nothing
deriving DecidableEq, Repr

def Value.type : Value → ExprType
  | num v => .value v.type
  | truth _ => .bool
  | nothing => .void

theorem Value.eq_num {v : Value} {t : NumType} (h : v.type = .value t) :
    ∃ n, v = .num n ∧ n.type = t := by
  cases v with
  | num n => exact ⟨n, rfl, ExprType.value.inj h⟩
  | truth _ | nothing => cases h

theorem Value.eq_int {v : Value} (h : v.type = .value .int) :
    ∃ a, v = .num (.int a) := by
  obtain ⟨n, rfl, hn⟩ := eq_num h
  cases n with
  | int a => exact ⟨a, rfl⟩
  | float _ => cases hn

theorem Value.eq_float {v : Value} (h : v.type = .value .float) :
    ∃ a, v = .num (.float a) := by
  obtain ⟨n, rfl, hn⟩ := eq_num h
  cases n with
  | int _ => cases hn
  | float a => exact ⟨a, rfl⟩

theorem Value.eq_truth {v : Value} (h : v.type = .bool) : ∃ b, v = .truth b := by
  cases v with
  | truth b => exact ⟨b, rfl⟩
  | num _ | nothing => cases h

/-- How a statement ends. -/
inductive Signal where
  | next | brk | cont
  | ret (value : Option Num)
deriving DecidableEq, Repr

variable {σ : Type}

/-! ### Operators -/

/-- The result of an integer operation, unless there is none. -/
def intArith : BinaryOp → Int32 → Int32 → Option Int32
  | .add, a, b => some (.ofInt (a.toInt + b.toInt))
  | .sub, a, b => some (.ofInt (a.toInt - b.toInt))
  | .mul, a, b => some (.ofInt (a.toInt * b.toInt))
  | .div, a, b =>
    if b = 0 ∨ a = Int32.minValue ∧ b = -1 then none
    else some (.ofInt (a.toInt.tdiv b.toInt))

def intCompare : CompareOp → Int → Int → Bool
  | .lt, a, b => a < b
  | .le, a, b => a ≤ b
  | .gt, a, b => b < a
  | .ge, a, b => b ≤ a
  | .eq, a, b => a = b
  | .ne, a, b => a ≠ b

def arith (ops : FloatOps) (op : BinaryOp) : Value → Value → Run σ Value
  | .num (.int a), .num (.int b) =>
    match intArith op a b with
    | some c => pure (.num (.int c))
    | none => throw .trap
  | .num (.float a), .num (.float b) => pure (.num (.float (ops.arith op a b)))
  | _, _ => throw .stuck

def negate (ops : FloatOps) : Value → Run σ Value
  | .num (.int a) => pure (.num (.int (.ofInt (-a.toInt))))
  | .num (.float a) => pure (.num (.float (ops.negate a)))
  | _ => throw .stuck

def compare (ops : FloatOps) (op : CompareOp) : Value → Value → Run σ Value
  | .num (.int a), .num (.int b) => pure (.truth (intCompare op a.toInt b.toInt))
  | .num (.float a), .num (.float b) => pure (.truth (ops.compare op a b))
  | _, _ => throw .stuck

def logic : BoolOp → Value → Value → Run σ Value
  | .and, .truth a, .truth b => pure (.truth (a && b))
  | .or, .truth a, .truth b => pure (.truth (a || b))
  | _, _, _ => throw .stuck

/-! ### Expressions -/

def Value.ofResult : Option Num → Value
  | some v => num v
  | none => nothing

theorem Value.type_ofResult {answer : Option Num} {result : Option NumType}
    (h : answer.map Num.type = result) : (Value.ofResult answer).type = .ofResult result := by
  subst h
  cases answer <;> rfl

/-- The number that a value is. -/
def number : Value → Run σ Num
  | .num v => pure v
  | _ => throw .stuck

section

variable (ops : FloatOps) (call : Callee → List Num → Run σ (Option Num))

mutual

/-- The value of an expression, where `call` answers the calls in it. -/
def Expr.eval : Expr → Run σ Value
  | .int value _ _ => pure (.num (.int value))
  | .float value _ _ => pure (.num (.float value))
  | .slot slot _ _ => do
    let v ← readSlot slot.toNat
    pure (.num v)
  | .binary op left right _ _ => do
    let a ← left.eval
    let b ← right.eval
    arith ops op a b
  | .negate operand _ _ => do
    let a ← operand.eval
    Typed.negate ops a
  | .compare op _ left right _ _ => do
    let a ← left.eval
    let b ← right.eval
    Typed.compare ops op a b
  | .logic op left right _ _ => do
    let a ← left.eval
    let b ← right.eval
    Typed.logic op a b
  | .call callee arguments _ _ => do
    let args ← evalArgs arguments
    let answer ← call callee args
    pure (.ofResult answer)

/-- The numbers that arguments come to, the first one first. -/
def evalArgs : List Expr → Run σ (List Num)
  | [] => pure []
  | e :: es => do
    let a ← e.eval
    let v ← number a
    let vs ← evalArgs es
    pure (v :: vs)

end

/-! ### Statements -/

/-- Goes one way or the other. -/
def choose {α : Type} (yes no : Run σ α) : Value → Run σ α
  | .truth true => yes
  | .truth false => no
  | _ => throw .stuck

/-- What becomes of a loop after a round. -/
def Signal.afterRound : Signal → Option Signal
  | next | cont => none
  | brk => some next
  | ret value => some (ret value)

variable (bound : Nat)

mutual

/-- Runs a statement, each loop of it at most `bound` times. -/
def Stmt.exec : Stmt → Run σ Signal
  | .assign slot value _ => do
    let a ← value.eval ops call
    let v ← number a
    writeSlot slot.toNat v
    pure .next
  | .perform e _ => do
    let _ ← e.eval ops call
    pure .next
  | .branch condition thenBody elseBody _ => do
    let a ← condition.eval ops call
    choose (execAll thenBody) (execAll elseBody) a
  | .whileDo condition body _ => iterate bound do
    let a ← condition.eval ops call
    choose (do let signal ← execAll body; pure signal.afterRound) (pure (some .next)) a
  | .ret none _ => pure (.ret none)
  | .ret (some value) _ => do
    let a ← value.eval ops call
    let v ← number a
    pure (.ret (some v))
  | .pass => pure .next
  | .brk _ => pure .brk
  | .cont _ => pure .cont

def execAll : List Stmt → Run σ Signal
  | [] => pure .next
  | s :: ss => do
    let signal ← s.exec
    match signal with
    | .next => execAll ss
    | other => pure other

end

end

/-! ### Calls -/

/-- What a function gives that ended in the given way. -/
def Function.result (f : Function) : Signal → Run σ (Option Num)
  | .ret value => pure value
  | .next => if f.signature.result.isNone then pure none else throw .stuck
  | .brk | .cont => throw .stuck

/-- Calls an import or a function.  The variables of a function that are not parameters
    begin as zero. -/
def Module.call (m : Module) (ops : FloatOps) (host : Host (m.imports.map (·.signature)) σ)
    (bound : Nat) (callee : Callee) (args : List Num) : Run σ (Option Num) :=
  match callee with
  | .imported index => callHost host index args
  | .defined index =>
    match bound with
    | 0 => throw .timeout
    | bound + 1 =>
      match m.functions[index]? with
      | none => throw .stuck
      | some f =>
        inFrame (args ++ f.locals.map Num.zero) do
          let signal ← execAll ops (fun callee args => m.call ops host bound callee args) bound
            f.body
          f.result signal

/-- The values that a function gives. -/
def Module.run (m : Module) (ops : FloatOps) (host : Host (m.imports.map (·.signature)) σ)
    (bound index : Nat) (args : List Num) : Run σ (List Num) := do
  let answer ← m.call ops host bound (.defined index) args
  pure answer.toList

/-- Called by the host in the given state, a function comes to an outcome and leaves the
    host in another state. -/
def Module.Finishes (m : Module) (ops : FloatOps) (host : Host (m.imports.map (·.signature)) σ)
    (index : Nat) (args : List Num) (state : σ) (outcome : Outcome) (state' : σ) : Prop :=
  ∃ bound, outcome? (m.run ops host bound index args) state = some (outcome, state')

end Offside.Typed
