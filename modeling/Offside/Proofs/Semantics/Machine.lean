/-
  Offside/Proofs/Semantics/Machine.lean
  =====================================
  **The meaning of instructions.**  Code works on a stack of numbers, the topmost first,
  and on the slots of its function.  A construct begins with an empty stack of its own, and
  the stack around it is there again when it ends.  A branch ends as many constructs as its
  depth says and goes to the end of the next one or, if that is a loop, to its beginning.
  Past all constructs it ends the function, as `return` does, which takes its results from
  the top of the stack.

  Truth is a number here, zero or one, and the connectives are those of 32 bits.
-/
import Offside.Proofs.Semantics.Run
import Offside.Proofs.Wasm.Typing

namespace Offside.Wasm

open Number

variable {σ : Type}

/-- How code ends: at its end, by a branch, or by a return. -/
inductive Flow where
  | next (stack : List Num)
  | br (depth : Nat) (stack : List Num)
  | ret (stack : List Num)
deriving DecidableEq, Repr

/-! ### Plain instructions -/

/-- The number that stands for a truth value. -/
def bit (truth : Bool) : Int32 := if truth then 1 else 0

/-- The quotient is signed, and there is none if it does not fit. -/
def i32Arith : BinaryOp → Int32 → Int32 → Option Int32
  | .add, a, b => some (a + b)
  | .sub, a, b => some (a - b)
  | .mul, a, b => some (a * b)
  | .div, a, b =>
    if b = 0 then none
    else if Int32.maxValue.toInt < a.toInt.tdiv b.toInt then none
    else some (a / b)

def i32Compare : CompareOp → Int32 → Int32 → Bool
  | .lt, a, b => a < b
  | .le, a, b => a ≤ b
  | .gt, a, b => b < a
  | .ge, a, b => b ≤ a
  | .eq, a, b => a = b
  | .ne, a, b => a ≠ b

def i32Logic : BoolOp → Int32 → Int32 → Int32
  | .and, a, b => a &&& b
  | .or, a, b => a ||| b

/-- Takes an integer from the stack. -/
def popInt (k : Int32 → List Num → Run σ Flow) : List Num → Run σ Flow
  | .int a :: stack => k a stack
  | _ => throw .stuck

/-- Takes a float from the stack. -/
def popFloat (k : Binary64 → List Num → Run σ Flow) : List Num → Run σ Flow
  | .float a :: stack => k a stack
  | _ => throw .stuck

/-- Takes a number from the stack. -/
def pop (k : Num → List Num → Run σ Flow) : List Num → Run σ Flow
  | v :: stack => k v stack
  | [] => throw .stuck

section

variable (ops : FloatOps) (functionType : Nat → Option FuncType)
  (invoke : Nat → List Num → Run σ (List Num)) (bound : Nat)

/-- Runs a plain instruction on a stack.  The second operand lies on top of the first. -/
def Plain.exec : Plain → List Num → Run σ Flow
  | .unreachable, _ => throw .trap
  | .br depth, stack => pure (.br depth.toNat stack)
  | .brIf depth, stack =>
    popInt (fun c stack => pure (if c = 0 then .next stack else .br depth.toNat stack)) stack
  | .ret, stack => pure (.ret stack)
  | .call index, stack =>
    match functionType index.toNat with
    | none => throw .stuck
    | some t =>
      if t.params.length ≤ stack.length then do
        let results ← invoke index.toNat (stack.take t.params.length).reverse
        pure (.next (results.reverse ++ stack.drop t.params.length))
      else throw .stuck
  | .drop, stack => pop (fun _ stack => pure (.next stack)) stack
  | .localGet slot, stack => do
    let v ← readSlot slot.toNat
    pure (.next (v :: stack))
  | .localSet slot, stack =>
    pop (fun v stack => do writeSlot slot.toNat v; pure (.next stack)) stack
  | .i32Const value, stack => pure (.next (.int value :: stack))
  | .f64Const value, stack => pure (.next (.float value :: stack))
  | .i32Eqz, stack => popInt (fun a stack => pure (.next (.int (bit (a = 0)) :: stack))) stack
  | .f64Neg, stack =>
    popFloat (fun a stack => pure (.next (.float (ops.negate a) :: stack))) stack
  | .compare .i32 op, stack =>
    popInt (fun b => popInt fun a stack =>
      pure (.next (.int (bit (i32Compare op a b)) :: stack))) stack
  | .compare .f64 op, stack =>
    popFloat (fun b => popFloat fun a stack =>
      pure (.next (.int (bit (ops.compare op a b)) :: stack))) stack
  | .arith .i32 op, stack =>
    popInt (fun b => popInt fun a stack =>
      match i32Arith op a b with
      | some c => pure (.next (.int c :: stack))
      | none => throw .trap) stack
  | .arith .f64 op, stack =>
    popFloat (fun b => popFloat fun a stack =>
      pure (.next (.float (ops.arith op a b) :: stack))) stack
  | .logic op, stack =>
    popInt (fun b => popInt fun a stack =>
      pure (.next (.int (i32Logic op a b) :: stack))) stack

/-! ### Constructs -/

/-- How a construct ends on the given stack, by how what it encloses ends. -/
def Flow.leave (stack : List Num) : Flow → Run σ Flow
  | next [] => pure (next stack)
  | next (_ :: _) => throw .stuck
  | br 0 _ => pure (next stack)
  | br (depth + 1) carried => pure (br depth carried)
  | ret results => pure (ret results)

/-- What becomes of a loop after a round: it goes on with the next one, or ends. -/
def Flow.afterRound (stack : List Num) : Flow → Run σ (Option Flow)
  | br 0 _ => pure none
  | flow => do
    let flow ← flow.leave stack
    pure (some flow)

/-- Goes on with the rest of a sequence. -/
def Flow.andThen (rest : List Num → Run σ Flow) : Flow → Run σ Flow
  | next stack => rest stack
  | flow => pure flow

mutual

/-- Runs a node on a stack, each loop of it at most `bound` times. -/
def Node.exec : Node → List Num → Run σ Flow
  | .plain i, stack => i.exec ops functionType invoke stack
  | .block body, stack => do
    let flow ← execAll body []
    flow.leave stack
  | .loop body, stack => iterate bound do
    let flow ← execAll body []
    flow.afterRound stack
  | .ifThen body, stack =>
    popInt (fun c stack =>
      if c = 0 then pure (.next stack)
      else do
        let flow ← execAll body []
        flow.leave stack) stack
  | .ifElse body orElse, stack =>
    popInt (fun c stack => do
      let flow ← if c = 0 then execAll orElse [] else execAll body []
      flow.leave stack) stack

def execAll : List Node → List Num → Run σ Flow
  | [], stack => pure (.next stack)
  | n :: ns, stack => do
    let flow ← n.exec stack
    flow.andThen fun stack => execAll ns stack

end

theorem execAll_append (ns ms : List Node) (stack : List Num) :
    execAll ops functionType invoke bound (ns ++ ms) stack =
      execAll ops functionType invoke bound ns stack >>=
        Flow.andThen (execAll ops functionType invoke bound ms) := by
  induction ns generalizing stack with
  | nil =>
    rw [List.nil_append, execAll, pure_bind]
    rfl
  | cons n ns ih =>
    rw [List.cons_append, execAll, execAll, bind_assoc]
    congr 1
    funext flow
    cases flow with
    | next stack => exact ih stack
    | br depth stack => exact (pure_bind _ _).symm
    | ret stack => exact (pure_bind _ _).symm

theorem execAll_singleton (n : Node) (stack : List Num) :
    execAll ops functionType invoke bound [n] stack =
      n.exec ops functionType invoke bound stack := by
  rw [execAll]
  have hend : ∀ flow : Flow, (flow.andThen fun stack => execAll ops functionType invoke bound []
      stack) = (pure flow : Run σ Flow) := by
    intro flow
    cases flow <;> rfl
  simp only [hend, bind_pure]

end

/-! ### Calls -/

/-- What a function with the given number of results gives, by how its body ends. -/
def Flow.results (count : Nat) : Flow → Run σ (List Num)
  | next stack => if stack.length = count then pure stack.reverse else throw .stuck
  | ret stack => if count ≤ stack.length then pure (stack.take count).reverse else throw .stuck
  | br 0 stack => if count ≤ stack.length then pure (stack.take count).reverse else throw .stuck
  | br (_ + 1) _ => throw .stuck

def zero : ValType → Num
  | .i32 => .int 0
  | .f64 => .float Binary64.zero

/-- Calls a function by its index. -/
def Module.invoke (w : Module) (ops : FloatOps) {imports : List Signature}
    (host : Host imports σ) (bound index : Nat) (args : List Num) : Run σ (List Num) :=
  if index < w.imports.length then do
    let answer ← callHost host index args
    pure answer.toList
  else
    match bound with
    | 0 => throw .timeout
    | bound + 1 =>
      match w.functions[index - w.imports.length]? with
      | none => throw .stuck
      | some f =>
        match w.type? f.typeIndex, structured? f.body with
        | some t, some body =>
          inFrame (args ++ f.locals.map zero) do
            let flow ← execAll ops w.functionType
              (fun index args => w.invoke ops host bound index args) bound body []
            flow.results t.results.length
        | _, _ => throw .stuck

theorem invoke_imported {w : Module} {ops : FloatOps} {imports : List Signature}
    {host : Host imports σ} {bound index : Nat} {args : List Num}
    (h : index < w.imports.length) :
    w.invoke ops host bound index args =
      (do let answer ← callHost host index args; pure answer.toList) := by
  rw [Module.invoke.eq_def, if_pos h]

theorem invoke_zero {w : Module} {ops : FloatOps} {imports : List Signature}
    {host : Host imports σ} {index : Nat} {args : List Num} (h : ¬ index < w.imports.length) :
    w.invoke ops host 0 index args = throw .timeout := by
  rw [Module.invoke.eq_def, if_neg h]

theorem invoke_succ {w : Module} {ops : FloatOps} {imports : List Signature}
    {host : Host imports σ} {bound index : Nat} {args : List Num} {f : Function} {t : FuncType}
    {body : List Node} (h : ¬ index < w.imports.length)
    (hf : w.functions[index - w.imports.length]? = some f) (ht : w.type? f.typeIndex = some t)
    (hbody : structured? f.body = some body) :
    w.invoke ops host (bound + 1) index args =
      inFrame (args ++ f.locals.map zero) (do
        let flow ← execAll ops w.functionType (w.invoke ops host bound) bound body []
        flow.results t.results.length) := by
  rw [Module.invoke.eq_def, if_neg h]
  simp only [hf, ht, hbody]

/-- Called by the host in the given state, a function comes to an outcome and leaves the
    host in another state. -/
def Module.Finishes (w : Module) (ops : FloatOps) {imports : List Signature}
    (host : Host imports σ) (index : Nat) (args : List Num) (state : σ) (outcome : Outcome)
    (state' : σ) : Prop :=
  ∃ bound, outcome? (w.invoke ops host bound index args) state = some (outcome, state')

end Offside.Wasm
