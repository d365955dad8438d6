/-
  Offside/Proofs/Lowering/ExprMeaning.lean
  ========================================
  **The code of an expression pushes its value.**  A truth value is on the stack as zero or
  one, which is what makes the connectives of 32 bits those of truth values; that a value is
  one or the other follows from the types.  The operations on 32 bits are those on integers,
  brought back into 32 bits, and the one quotient that does not fit is the one that the
  tree gives no result for.

  Calls are taken as they come: `Linked` says that calling a callee and calling its index do
  the same.
-/
import Offside.Proofs.Lowering.Accepted
import Offside.Proofs.Semantics.Machine
import Offside.Proofs.Semantics.Simulates
import Offside.Proofs.Semantics.Source

namespace Offside

open Wasm (Plain Node Flow FuncType bit)
open Typed (Expr Stmt Value Signal Callee)

/-! ### Operators -/

/-- The one quotient that does not fit. -/
theorem maxValue_lt_tdiv (a b : Int32) (hb : b ≠ 0) :
    Int32.maxValue.toInt < a.toInt.tdiv b.toInt ↔ a = Int32.minValue ∧ b = -1 := by
  have hmax : Int32.maxValue.toInt = 2147483647 := rfl
  have hmin : Int32.minValue.toInt = -2147483648 := rfl
  constructor
  · intro h
    have hlow := Int32.minValue_le_toInt a
    have hhigh := Int32.toInt_le a
    have hb0 : b.toInt ≠ 0 := fun h0 => hb (Int32.toInt_inj.mp h0)
    have habs : (a.toInt.tdiv b.toInt).natAbs = a.toInt.natAbs / b.toInt.natAbs :=
      Int.natAbs_tdiv _ _
    have hquot : 2147483648 ≤ a.toInt.natAbs / b.toInt.natAbs := by omega
    rw [Nat.le_div_iff_mul_le (by omega)] at hquot
    have hone : b.toInt.natAbs = 1 := by omega
    rcases Int.natAbs_eq b.toInt with hpos | hneg
    · rw [hpos, hone, Int.natCast_one, Int.tdiv_one] at h
      omega
    · rw [hneg, hone, Int.tdiv_neg, Int.natCast_one, Int.tdiv_one] at h
      rw [hone] at hneg
      exact ⟨Int32.toInt_inj.mp (by omega), Int32.toInt_inj.mp hneg⟩
  · rintro ⟨rfl, rfl⟩
    decide

theorem i32Arith_eq (op : BinaryOp) (a b : Int32) :
    Wasm.i32Arith op a b = Typed.intArith op a b := by
  cases op with
  | add => simp [Wasm.i32Arith, Typed.intArith, Int32.ofInt_add]
  | sub => simp [Wasm.i32Arith, Typed.intArith, Int32.ofInt_sub]
  | mul => simp [Wasm.i32Arith, Typed.intArith, Int32.ofInt_mul]
  | div =>
    have hquot : Int32.ofInt (a.toInt.tdiv b.toInt) = a / b := by
      rw [Int32.ofInt_tdiv (Int32.minValue_le_toInt a) (Int32.toInt_le a)
        (Int32.minValue_le_toInt b) (Int32.toInt_le b), Int32.ofInt_toInt, Int32.ofInt_toInt]
    by_cases hb : b = 0
    · simp [Wasm.i32Arith, Typed.intArith, hb]
    · simp only [Wasm.i32Arith, Typed.intArith, maxValue_lt_tdiv a b hb, hquot, hb, if_false,
        false_or]

theorem i32Compare_eq (op : CompareOp) (a b : Int32) :
    Wasm.i32Compare op a b = Typed.intCompare op a.toInt b.toInt := by
  cases op <;>
    simp [Wasm.i32Compare, Typed.intCompare, Int32.lt_iff_toInt_lt, Int32.le_iff_toInt_le,
      Int32.toInt_inj]

theorem i32Logic_bit (op : BoolOp) (a b : Bool) :
    Wasm.i32Logic op (bit a) (bit b) = bit (match op with | .and => a && b | .or => a || b) := by
  cases op <;> cases a <;> cases b <;> rfl

/-! ### Expressions -/

/-- The stack with a value on top. -/
def Typed.Value.push : Value → List Num → List Num
  | num v, stack => v :: stack
  | truth b, stack => .int (bit b) :: stack
  | nothing, stack => stack

variable {σ α γ : Type} {m : Typed.Module} {ops : FloatOps}
  {functionType : Nat → Option FuncType} {call : Callee → List Num → Run σ (Option Num)}
  {invoke : Nat → List Num → Run σ (List Num)} {bound : Nat} {slots : List NumType}

/-- The two ways to call do the same. -/
structure Linked (m : Typed.Module) (functionType : Nat → Option FuncType)
    (call : Callee → List Num → Run σ (Option Num))
    (invoke : Nat → List Num → Run σ (List Num)) : Prop where
  callees : m.imports.length + m.functions.length ≤ UInt32.size
  types : ∀ callee signature, m.signatureOf callee = some signature →
    functionType (m.indexOf callee) = some (FuncType.ofSignature signature)
  calls : ∀ callee signature args slots, m.signatureOf callee = some signature →
    args.map Num.type = signature.params →
      Simulates slots (fun answer => answer.map Num.type = signature.result) Option.toList
        (call callee args) (invoke (m.indexOf callee) args)

theorem Simulates.seq {P : α → Prop} {push : α → List Num} {x : Run σ α} {Q : γ → Prop}
    {k : γ → Flow} {f : α → Run σ γ} {ns ms : List Node} {stack : List Num}
    (h : Simulates slots P (fun a => .next (push a)) x
      (Wasm.execAll ops functionType invoke bound ns stack))
    (hf : ∀ a, P a → Simulates slots Q k (f a)
      (Wasm.execAll ops functionType invoke bound ms (push a))) :
    Simulates slots Q k (x >>= f)
      (Wasm.execAll ops functionType invoke bound (ns ++ ms) stack) := by
  rw [Wasm.execAll_append]
  exact h.bind hf

theorem Simulates.plain {Q : γ → Prop} {k : γ → Flow} {x : Run σ γ} {i : Plain}
    {stack : List Num} (h : Simulates slots Q k x (i.exec ops functionType invoke stack)) :
    Simulates slots Q k x
      (Wasm.execAll ops functionType invoke bound [.plain i] stack) := by
  rw [Wasm.execAll_singleton]
  exact h

theorem arith_simulates (op : BinaryOp) {a b : Value} {t : NumType} (ha : a.type = .value t)
    (hb : b.type = .value t) (stack : List Num) :
    Simulates slots (fun v => v.type = .value t) (fun v => .next (v.push stack))
      (Typed.arith ops op a b)
      ((Plain.arith (.ofNumType t) op).exec ops functionType invoke (b.push (a.push stack))) := by
  cases t with
  | int =>
    obtain ⟨a, rfl⟩ := Value.eq_int ha
    obtain ⟨b, rfl⟩ := Value.eq_int hb
    simp only [Typed.arith, Value.push, Wasm.ValType.ofNumType, Plain.exec, Wasm.popInt,
      i32Arith_eq]
    cases Typed.intArith op a b with
    | some c => exact .pure rfl
    | none => exact .stop (by simp)
  | float =>
    obtain ⟨a, rfl⟩ := Value.eq_float ha
    obtain ⟨b, rfl⟩ := Value.eq_float hb
    exact .pure rfl

theorem compare_simulates (op : CompareOp) {a b : Value} {t : NumType} (ha : a.type = .value t)
    (hb : b.type = .value t) (stack : List Num) :
    Simulates slots (fun v => v.type = .bool) (fun v => .next (v.push stack))
      (Typed.compare ops op a b)
      ((Plain.compare (.ofNumType t) op).exec ops functionType invoke
        (b.push (a.push stack))) := by
  cases t with
  | int =>
    obtain ⟨a, rfl⟩ := Value.eq_int ha
    obtain ⟨b, rfl⟩ := Value.eq_int hb
    simp only [Typed.compare, Value.push, Wasm.ValType.ofNumType, Plain.exec, Wasm.popInt,
      i32Compare_eq]
    exact .pure rfl
  | float =>
    obtain ⟨a, rfl⟩ := Value.eq_float ha
    obtain ⟨b, rfl⟩ := Value.eq_float hb
    exact .pure rfl

theorem logic_simulates (op : BoolOp) {a b : Value} (ha : a.type = .bool) (hb : b.type = .bool)
    (stack : List Num) :
    Simulates slots (fun v => v.type = .bool) (fun v => .next (v.push stack))
      (Typed.logic op a b)
      ((Plain.logic op).exec ops functionType invoke (b.push (a.push stack))) := by
  obtain ⟨a, rfl⟩ := Value.eq_truth ha
  obtain ⟨b, rfl⟩ := Value.eq_truth hb
  simp only [Value.push, Plain.exec, Wasm.popInt, i32Logic_bit]
  cases op <;> exact .pure rfl

/-- Subtraction from zero negates. -/
theorem negate_int_simulates {a : Value} (ha : a.type = .value .int) (stack : List Num) :
    Simulates slots (fun v => v.type = .value .int) (fun v => .next (v.push stack))
      (Typed.negate ops a)
      ((Plain.arith .i32 .sub).exec ops functionType invoke (a.push (.int 0 :: stack))) := by
  obtain ⟨a, rfl⟩ := Value.eq_int ha
  have hneg : Wasm.i32Arith .sub 0 a = some (.ofInt (-a.toInt)) := by
    simp [Wasm.i32Arith, Int32.ofInt_neg]
  simp only [Typed.negate, Value.push, Plain.exec, Wasm.popInt, hneg]
  exact .pure rfl

theorem negate_float_simulates {a : Value} (ha : a.type = .value .float) (stack : List Num) :
    Simulates slots (fun v => v.type = .value .float) (fun v => .next (v.push stack))
      (Typed.negate ops a) (Plain.f64Neg.exec ops functionType invoke (a.push stack)) := by
  obtain ⟨a, rfl⟩ := Value.eq_float ha
  exact .pure rfl

theorem push_ofResult (answer : Option Num) (stack : List Num) :
    (Value.ofResult answer).push stack = answer.toList.reverse ++ stack := by
  cases answer <;> rfl

/-- A call takes its arguments from the stack and leaves its result there. -/
theorem call_simulates (link : Linked m functionType call invoke) {callee : Callee}
    {signature : Signature} (known : m.signatureOf callee = some signature) {args : List Num}
    (hargs : args.map Num.type = signature.params) (stack : List Num) :
    Simulates slots (fun v => v.type = .ofResult signature.result)
      (fun v => .next (v.push stack))
      (do let answer ← call callee args; pure (Value.ofResult answer))
      ((Plain.call (functionIndex m callee)).exec ops functionType invoke
        (args.reverse ++ stack)) := by
  have hcount : (FuncType.ofSignature signature).params.length = args.length := by
    have := congrArg List.length hargs
    simpa [FuncType.ofSignature] using this.symm
  simp only [Plain.exec, toNat_functionIndex link.callees known, link.types callee signature known,
    hcount]
  rw [if_pos (by simp), List.take_left' (by simp), List.drop_left' (by simp), List.reverse_reverse]
  refine (link.calls callee signature args slots known hargs).bind fun answer hanswer => ?_
  rw [← push_ofResult]
  exact .pure (Value.type_ofResult hanswer)

theorem evalArgs_simulates {es : List Expr}
    (h : ∀ e ∈ es, ∀ stack, Simulates slots (fun v => v.type = e.type)
      (fun v => .next (v.push stack)) (e.eval ops call)
      (Wasm.execAll ops functionType invoke bound (exprNodes m e) stack))
    {ts : List NumType} (types : es.map Expr.type = ts.map ExprType.value) (stack : List Num) :
    Simulates slots (fun vs => vs.map Num.type = ts) (fun vs => .next (vs.reverse ++ stack))
      (Typed.evalArgs ops call es)
      (Wasm.execAll ops functionType invoke bound (argNodes m es) stack) := by
  induction es generalizing ts stack with
  | nil =>
    obtain rfl : ts = [] := by simpa using types
    rw [Typed.evalArgs, argNodes, Wasm.execAll]
    exact .pure rfl
  | cons e es ih =>
    cases ts with
    | nil => cases types
    | cons t ts =>
      simp only [List.map_cons, List.cons.injEq] at types
      rw [Typed.evalArgs, argNodes]
      refine (h e (by simp) stack).seq fun a ha => ?_
      obtain ⟨v, rfl, hv⟩ := Value.eq_num (ha.trans types.1)
      rw [Typed.number, pure_bind]
      refine (ih (fun e' he' => h e' (by simp [he'])) types.2 (v :: stack)).bindLeft
        fun vs hvs => ?_
      have hpush : vs.reverse ++ v :: stack = (v :: vs).reverse ++ stack := by simp
      rw [hpush]
      exact .pure (by simp [hv, hvs])

/-- The code of an expression pushes its value. -/
theorem eval_simulates (link : Linked m functionType call invoke) {e : Expr}
    (h : e.WellTyped m.signatureOf slots) (stack : List Num) :
    Simulates slots (fun v => v.type = e.type) (fun v => .next (v.push stack))
      (e.eval ops call)
      (Wasm.execAll ops functionType invoke bound (exprNodes m e) stack) := by
  induction h generalizing stack with
  | int value _ =>
    rw [Expr.eval, exprNodes]
    exact Simulates.plain (.pure rfl)
  | float value _ =>
    rw [Expr.eval, exprNodes]
    exact Simulates.plain (.pure rfl)
  | slot declared =>
    rw [Expr.eval, exprNodes]
    refine Simulates.plain ((Simulates.readSlot declared).bind fun v hv => ?_)
    subst hv
    exact .pure rfl
  | @binary op _ _ _ _ _ _ tl tr hl hr =>
    rw [Expr.eval, exprNodes, List.append_assoc]
    refine (hl stack).seq fun a ha => ?_
    refine (hr (a.push stack)).seq fun b hb => ?_
    exact (arith_simulates op (ha.trans tl) (hb.trans tr) stack).plain
  | @negate e n _ _ te he =>
    rw [Expr.eval]
    cases n with
    | int =>
      rw [exprNodes, List.append_assoc, Wasm.execAll_append, Wasm.execAll_singleton]
      refine (he (.int 0 :: stack)).seq fun a ha => ?_
      exact (negate_int_simulates (ha.trans te) stack).plain
    | float =>
      rw [exprNodes]
      refine (he stack).seq fun a ha => ?_
      exact (negate_float_simulates (ha.trans te) stack).plain
  | @compare op _ _ _ _ _ _ tl tr hl hr =>
    rw [Expr.eval, exprNodes, List.append_assoc]
    refine (hl stack).seq fun a ha => ?_
    refine (hr (a.push stack)).seq fun b hb => ?_
    exact (compare_simulates op (ha.trans tl) (hb.trans tr) stack).plain
  | @logic op _ _ _ _ _ tl tr hl hr =>
    rw [Expr.eval, exprNodes, List.append_assoc]
    refine (hl stack).seq fun a ha => ?_
    refine (hr (a.push stack)).seq fun b hb => ?_
    exact (logic_simulates op (ha.trans tl) (hb.trans tr) stack).plain
  | call _ known types hargs =>
    rw [Expr.eval, exprNodes]
    refine (evalArgs_simulates hargs types stack).seq fun vs hvs => ?_
    exact (call_simulates link known hvs stack).plain

end Offside
