/-
  Offside/Proofs/Lowering/Returns.lean
  ====================================
  **A function with a result never comes to its end.**  The checker asks only that some
  statement of the body returns on every path, and it does not look at `break` and `continue`.
  That is enough because of what the others do: a loop never counts as returning, and a
  `break` or `continue` outside of a loop is not lowered.  So no run of the body ends in any
  other way than by a return, and neither does its code, whatever its calls answer and whatever
  is in its slots (`body_never_ends_open`).

  Lowering that does not stop gives the nodes of the body and shows that there are no stray
  exits (`generate_complete`); nothing has to be well typed for that.
-/
import Offside.Proofs.Lowering.Meaning
import Offside.Proofs.Semantics.Sound

namespace Offside

open Wasm (Instr Plain Node Flow FuncType flattenAll flattenAll_append)
open Typed (Expr Stmt Signal Callee)

variable {m : Typed.Module}

/-! ### Lowering that does not stop -/

namespace Lowering

theorem append_stop {a b : Lowering} (h : (a ++ b).stop = none) :
    a.stop = none ∧ b.stop = none := by
  cases ha : a.stop with
  | some why =>
    rw [append_of_stop (by simp [ha]), ha] at h
    cases h
  | none =>
    refine ⟨rfl, ?_⟩
    change (append a b).stop = none at h
    rw [append, ha] at h
    exact h

theorem enclose_stop {label : Label} {l : Lowering} (h : (enclose label l).stop = none) :
    l.stop = none := (append_stop (append_stop h).1).2

theorem Follows.complete {l : Lowering} {code : List Instr} {exits : List Exit}
    (h : l.Follows code exits) (hstop : l.stop = none) : l = Lowering.emit code ∧ exits = [] := by
  cases exits with
  | nil => exact ⟨h, rfl⟩
  | cons e exits =>
    obtain ⟨labels, hsome⟩ := h
    rw [hstop] at hsome
    cases hsome

end Lowering

open Lowering

theorem lowerElse_stop {labels : List Label} {ss : List Stmt}
    (h : (lowerElse m labels ss).stop = none) : (lowerStmts m labels ss).stop = none := by
  cases ss with
  | nil => rfl
  | cons s ss =>
    rw [lowerElse] at h
    rw [lowerStmts]
    exact (append_stop h).2

mutual

theorem lowerExpr_complete {labels : List Label} (e : Expr)
    (h : (lowerExpr m labels e).stop = none) :
    lowerExpr m labels e = .emit (flattenAll (exprNodes m e)) := by
  cases e with
  | int | float | slot => simp [lowerExpr, exprNodes, Plain.instr]
  | binary op left right type _ =>
    cases type with
    | value t =>
      rw [lowerExpr] at h
      obtain ⟨hl, hr⟩ := append_stop (append_stop h).1
      simp [lowerExpr, exprNodes, Plain.instr, lowerExpr_complete left hl,
        lowerExpr_complete right hr]
    | bool | void => cases h
  | negate operand type _ =>
    cases type with
    | value t =>
      cases t with
      | int =>
        rw [lowerExpr] at h
        have he := (append_stop (append_stop h).1).2
        simp [lowerExpr, exprNodes, Plain.instr, lowerExpr_complete operand he]
      | float =>
        rw [lowerExpr] at h
        have he := (append_stop h).1
        simp [lowerExpr, exprNodes, Plain.instr, lowerExpr_complete operand he]
    | bool | void => cases h
  | compare op _ left right _ _ =>
    rw [lowerExpr] at h
    obtain ⟨hl, hr⟩ := append_stop (append_stop h).1
    simp [lowerExpr, exprNodes, Plain.instr, lowerExpr_complete left hl,
      lowerExpr_complete right hr]
  | logic op left right _ _ =>
    rw [lowerExpr] at h
    obtain ⟨hl, hr⟩ := append_stop (append_stop h).1
    simp [lowerExpr, exprNodes, Plain.instr, lowerExpr_complete left hl,
      lowerExpr_complete right hr]
  | call callee arguments _ _ =>
    rw [lowerExpr] at h
    have hes := (append_stop h).1
    simp [lowerExpr, exprNodes, Plain.instr, lowerExprs_complete arguments hes]

theorem lowerExprs_complete {labels : List Label} (es : List Expr)
    (h : (lowerExprs m labels es).stop = none) :
    lowerExprs m labels es = .emit (flattenAll (argNodes m es)) := by
  cases es with
  | nil => rfl
  | cons e es =>
    rw [lowerExprs] at h
    obtain ⟨he, hes⟩ := append_stop h
    simp [lowerExprs, argNodes, lowerExpr_complete e he, lowerExprs_complete es hes]

end

mutual

/-- Lowering of a statement that does not stop gives its nodes, and there is no stray exit in
    it. -/
theorem lowerStmt_complete {labels : List Label} (s : Stmt)
    (h : (lowerStmt m labels s).stop = none) :
    lowerStmt m labels s = .emit (flattenAll (stmtNodes m labels s)) ∧
      straysIn labels s.strayExits = [] := by
  cases s with
  | assign slot value _ =>
    rw [lowerStmt] at h
    have he := lowerExpr_complete value (append_stop h).1
    exact ⟨by simp [lowerStmt, stmtNodes, Plain.instr, he], straysIn_none labels⟩
  | perform e _ =>
    rw [lowerStmt] at h
    have he := lowerExpr_complete e (append_stop h).1
    refine ⟨?_, straysIn_none labels⟩
    by_cases hvoid : e.type = .void <;>
      simp [lowerStmt, stmtNodes, Plain.instr, dropValue, he, hvoid]
  | branch condition thenBody elseBody _ =>
    rw [lowerStmt] at h
    obtain ⟨hcondition, hbranch⟩ := append_stop h
    obtain ⟨hthen, helse⟩ := append_stop (enclose_stop hbranch)
    have he := lowerExpr_complete condition hcondition
    obtain ⟨hthen, hexits⟩ := lowerStmts_complete thenBody hthen
    obtain ⟨helse, hexits'⟩ := lowerStmts_complete elseBody (lowerElse_stop helse)
    rw [straysIn_branch] at hexits hexits'
    constructor
    · cases elseBody with
      | nil =>
        simp [lowerStmt, stmtNodes, he, hthen, lowerElse, enclose, branchNode, Node.flatten,
          Label.opening]
      | cons s ss =>
        rw [lowerStmts] at helse
        simp [lowerStmt, stmtNodes, he, hthen, lowerElse, helse, enclose, branchNode, Node.flatten,
          Label.opening]
    · rw [Stmt.strayExits, straysIn_append, hexits, hexits', List.append_nil]
  | whileDo condition body _ =>
    rw [lowerStmt] at h
    obtain ⟨htest, hbody⟩ := append_stop (append_stop (enclose_stop (enclose_stop h))).1
    have he := lowerExpr_complete condition (append_stop htest).1
    have hss := (lowerStmts_complete body hbody).1
    refine ⟨?_, straysIn_none labels⟩
    simp [lowerStmt, stmtNodes, he, hss, enclose, Node.flatten, Plain.instr, Label.opening]
  | ret value _ =>
    cases value with
    | none => exact ⟨rfl, straysIn_none labels⟩
    | some value =>
      rw [lowerStmt] at h
      have he := lowerExpr_complete value (append_stop h).1
      exact ⟨by simp [lowerStmt, stmtNodes, Plain.instr, he], straysIn_none labels⟩
  | pass => exact ⟨rfl, straysIn_none labels⟩
  | brk span => exact (lowerBranch_follows ⟨"break", span.start⟩ 1 rfl).complete h
  | cont span => exact (lowerBranch_follows ⟨"continue", span.start⟩ 0 rfl).complete h

theorem lowerStmts_complete {labels : List Label} (ss : List Stmt)
    (h : (lowerStmts m labels ss).stop = none) :
    lowerStmts m labels ss = .emit (flattenAll (bodyNodes m labels ss)) ∧
      straysIn labels (Typed.strayExits ss) = [] := by
  cases ss with
  | nil => exact ⟨rfl, straysIn_none labels⟩
  | cons s ss =>
    rw [lowerStmts] at h
    obtain ⟨hs, hss⟩ := append_stop h
    obtain ⟨hs, hexits⟩ := lowerStmt_complete s hs
    obtain ⟨hss, hexits'⟩ := lowerStmts_complete ss hss
    refine ⟨by simp [lowerStmts, bodyNodes, hs, hss], ?_⟩
    rw [Typed.strayExits, straysIn_append, hexits, hexits', List.append_nil]

end

/-- What lowering makes of a function, if it comes to an end. -/
theorem generate_complete {f : Typed.Function} {code : List Instr} (h : generate m f = .ok code) :
    Typed.strayExits f.body = [] ∧ flattenAll (functionNodes m f) = code := by
  have hstop : (lowerFunction m f).stop = none := by
    rw [generate, result] at h
    cases hstop : (lowerFunction m f).stop with
    | none => rfl
    | some why =>
      rw [hstop] at h
      cases h
  obtain ⟨hbody, hexits⟩ := lowerStmts_complete f.body (append_stop hstop).1
  refine ⟨hexits, ?_⟩
  have hnodes : lowerFunction m f = .emit (flattenAll (functionNodes m f)) := by
    rw [lowerFunction, hbody, functionNodes]
    cases f.signature.result with
    | none => simp
    | some t => simp [Plain.instr]
  rw [generate, hnodes] at h
  exact Except.ok.inj h

/-! ### How code ends -/

variable {σ : Type} {ops : FloatOps} {functionType : Nat → Option FuncType}
  {invoke : Nat → List Num → Run σ (List Num)} {bound : Nat}

/-- Holds for the instructions that always go on with the next one. -/
def Wasm.Plain.isStraight : Plain → Bool
  | .br _ | .brIf _ | .ret => false
  | _ => true

/-- Code came to its end. -/
def Wasm.Flow.IsNext (flow : Flow) : Prop := ∃ stack, flow = .next stack

theorem popInt_ends {P : Flow → Prop} {k : Int32 → List Num → Run σ Flow}
    (h : ∀ a stack, Ends P (k a stack)) (stack : List Num) : Ends P (Wasm.popInt k stack) := by
  cases stack with
  | nil => exact .stop trivial
  | cons v stack =>
    cases v with
    | int a => exact h a stack
    | float _ => exact .stop trivial

theorem popFloat_ends {P : Flow → Prop} {k : Number.Binary64 → List Num → Run σ Flow}
    (h : ∀ a stack, Ends P (k a stack)) (stack : List Num) : Ends P (Wasm.popFloat k stack) := by
  cases stack with
  | nil => exact .stop trivial
  | cons v stack =>
    cases v with
    | int _ => exact .stop trivial
    | float a => exact h a stack

theorem pop_ends {P : Flow → Prop} {k : Num → List Num → Run σ Flow}
    (h : ∀ a stack, Ends P (k a stack)) (stack : List Num) : Ends P (Wasm.pop k stack) := by
  cases stack with
  | nil => exact .stop trivial
  | cons v stack => exact h v stack

theorem Wasm.Plain.exec_straight {i : Plain} (h : i.isStraight = true) (stack : List Num) :
    Ends Flow.IsNext (i.exec ops functionType invoke stack) := by
  have hpure : ∀ stack : List Num, Ends Flow.IsNext (pure (.next stack) : Run σ Flow) :=
    fun stack => .pure ⟨stack, rfl⟩
  cases i with
  | br | brIf | ret => cases h
  | unreachable => exact .stop trivial
  | call index =>
    rw [Plain.exec]
    split
    · exact .stop trivial
    · split
      · exact (Ends.any _).bind fun _ _ => hpure _
      · exact .stop trivial
  | drop => exact pop_ends (fun _ _ => hpure _) stack
  | localGet slot =>
    rw [Plain.exec]
    exact (Ends.any _).bind fun _ _ => hpure _
  | localSet slot => exact pop_ends (fun _ _ => (Ends.any _).bind fun _ _ => hpure _) stack
  | i32Const | f64Const => exact hpure _
  | i32Eqz => exact popInt_ends (fun _ _ => hpure _) stack
  | f64Neg => exact popFloat_ends (fun _ _ => hpure _) stack
  | compare type op =>
    cases type with
    | i32 => exact popInt_ends (fun _ => popInt_ends fun _ _ => hpure _) stack
    | f64 => exact popFloat_ends (fun _ => popFloat_ends fun _ _ => hpure _) stack
  | arith type op =>
    cases type with
    | i32 =>
      refine popInt_ends (fun b => popInt_ends fun a stack => ?_) stack
      cases Wasm.i32Arith op a b with
      | some c => exact hpure _
      | none => exact .stop trivial
    | f64 => exact popFloat_ends (fun _ => popFloat_ends fun _ _ => hpure _) stack
  | logic op => exact popInt_ends (fun _ => popInt_ends fun _ _ => hpure _) stack

/-- A sequence ends as its second part does, if the first comes to its end, and as the first
    does otherwise. -/
theorem execAll_append_ends {P Q : Flow → Prop} {ns ms : List Node} {stack : List Num}
    (h : Ends P (Wasm.execAll ops functionType invoke bound ns stack))
    (hnext : ∀ stack, P (.next stack) →
      Ends Q (Wasm.execAll ops functionType invoke bound ms stack))
    (hother : ∀ flow : Flow, ¬ flow.IsNext → P flow → Q flow) :
    Ends Q (Wasm.execAll ops functionType invoke bound (ns ++ ms) stack) := by
  rw [Wasm.execAll_append]
  refine h.bind fun flow hflow => ?_
  cases flow with
  | next stack => exact hnext stack hflow
  | br depth stack => exact .pure (hother _ (by rintro ⟨_, h⟩; cases h) hflow)
  | ret stack => exact .pure (hother _ (by rintro ⟨_, h⟩; cases h) hflow)

theorem execAll_seq {P : Flow → Prop} {ns ms : List Node} {stack : List Num}
    (h : Ends Flow.IsNext (Wasm.execAll ops functionType invoke bound ns stack))
    (h' : ∀ stack, Ends P (Wasm.execAll ops functionType invoke bound ms stack)) :
    Ends P (Wasm.execAll ops functionType invoke bound (ns ++ ms) stack) :=
  execAll_append_ends h (fun stack _ => h' stack) fun _ hnot hnext => absurd hnext hnot

theorem execAll_plain {i : Plain} (h : i.isStraight = true) (stack : List Num) :
    Ends Flow.IsNext (Wasm.execAll ops functionType invoke bound [.plain i] stack) := by
  rw [Wasm.execAll_singleton]
  exact Plain.exec_straight h stack

mutual

/-- The code of an expression has no branches. -/
theorem exprNodes_ends (e : Expr) (stack : List Num) :
    Ends Flow.IsNext (Wasm.execAll ops functionType invoke bound (exprNodes m e) stack) := by
  cases e with
  | int | float | slot => exact execAll_plain rfl stack
  | binary op left right type _ =>
    cases type with
    | value t =>
      exact execAll_seq (execAll_seq (exprNodes_ends left stack) (exprNodes_ends right))
        (execAll_plain rfl)
    | bool | void => exact .pure ⟨stack, rfl⟩
  | negate operand type _ =>
    cases type with
    | value t =>
      cases t with
      | int =>
        exact execAll_seq (execAll_seq (execAll_plain rfl stack) (exprNodes_ends operand))
          (execAll_plain rfl)
      | float => exact execAll_seq (exprNodes_ends operand stack) (execAll_plain rfl)
    | bool | void => exact .pure ⟨stack, rfl⟩
  | compare op _ left right _ _ =>
    exact execAll_seq (execAll_seq (exprNodes_ends left stack) (exprNodes_ends right))
      (execAll_plain rfl)
  | logic op left right _ _ =>
    exact execAll_seq (execAll_seq (exprNodes_ends left stack) (exprNodes_ends right))
      (execAll_plain rfl)
  | call callee arguments _ _ =>
    exact execAll_seq (argNodes_ends arguments stack) (execAll_plain rfl)

theorem argNodes_ends (es : List Expr) (stack : List Num) :
    Ends Flow.IsNext (Wasm.execAll ops functionType invoke bound (argNodes m es) stack) := by
  cases es with
  | nil => exact .pure ⟨stack, rfl⟩
  | cons e es => exact execAll_seq (exprNodes_ends e stack) (argNodes_ends es)

end

/-- Holds of the ways in which the code of a statement can end inside the constructs `labels`.
    A branch goes to the loop around the code or to the block around that, or not as far. -/
def Wasm.Flow.Leaves (labels : List Label) (returns : Bool) : Flow → Prop
  | next _ => returns = false ∨ .loop ∈ labels
  | br depth _ => ∃ loop, loopDepth? labels = some loop ∧ depth ≤ loop + 1
  | ret _ => True

theorem Wasm.Flow.Leaves.imp {labels : List Label} {returns returns' : Bool} {flow : Flow}
    (hreturns : returns = false → returns' = false ∨ .loop ∈ labels)
    (h : flow.Leaves labels returns) : flow.Leaves labels returns' := by
  cases flow with
  | next stack => exact h.elim hreturns .inr
  | br depth stack => exact h
  | ret stack => exact h

theorem loop_mem_of_loopDepth? {labels : List Label} {depth : Nat}
    (h : loopDepth? labels = some depth) : .loop ∈ labels := by
  rw [← List.isSome_idxOf?, ← loopDepth?, h]
  rfl

/-- Out of a branch, a way to end is again one. -/
theorem leave_ends {labels : List Label} {returns returns' : Bool} {flow : Flow}
    (h : flow.Leaves (.branch :: labels) returns) (hreturns : returns = false → returns' = false)
    (stack : List Num) : Ends (Flow.Leaves labels returns') (flow.leave stack : Run σ Flow) := by
  have hloop : .loop ∈ .branch :: labels → Label.loop ∈ labels := by simp
  cases flow with
  | next carried =>
    cases carried with
    | nil => exact .pure (Or.imp hreturns hloop h)
    | cons _ _ => exact .stop trivial
  | br depth carried =>
    obtain ⟨loop, hdepth, hle⟩ := h
    have hmem := hloop (loop_mem_of_loopDepth? hdepth)
    obtain ⟨outer, houter, hinner⟩ := loopDepth?_branch hmem
    obtain rfl : outer + 1 = loop := Option.some.inj (hinner.symm.trans hdepth)
    cases depth with
    | zero => exact .pure (.inr hmem)
    | succ depth => exact .pure ⟨outer, houter, by omega⟩
  | ret results => exact .pure trivial

/-- How a round of a loop can end: with a branch to it or to its block, or with a return. -/
def Wasm.Flow.InRound : Flow → Prop
  | next _ | ret _ => True
  | br depth _ => depth ≤ 1

/-- How a loop can end inside its block. -/
def Wasm.Flow.OutOfLoop : Flow → Prop
  | next _ | ret _ => True
  | br depth _ => depth = 0

theorem afterRound_ends {flow : Flow} (h : flow.InRound) :
    Ends (fun after : Option Flow => ∀ flow, after = some flow → flow.OutOfLoop)
      (flow.afterRound [] : Run σ (Option Flow)) := by
  have hsome : ∀ flow : Flow, flow.OutOfLoop →
      Ends (fun after : Option Flow => ∀ flow, after = some flow → flow.OutOfLoop)
        (pure (some flow) : Run σ (Option Flow)) := by
    rintro flow hflow
    refine .pure ?_
    rintro _ ⟨⟩
    exact hflow
  cases flow with
  | next carried =>
    cases carried with
    | nil => exact hsome (.next []) trivial
    | cons _ _ => exact .stop trivial
  | br depth carried =>
    match depth, h with
    | 0, _ => exact .pure fun _ hnone => by cases hnone
    | 1, _ => exact hsome (.br 0 carried) rfl
  | ret results => exact hsome (.ret results) trivial

/-- A loop in its block comes to its end or returns. -/
theorem loop_ends {labels : List Label} {ns : List Node}
    (h : Ends Flow.InRound (Wasm.execAll ops functionType invoke bound ns []))
    (stack : List Num) :
    Ends (Flow.Leaves labels false)
      (Wasm.execAll ops functionType invoke bound [.block [.loop ns]] stack) := by
  rw [Wasm.execAll_singleton, Wasm.Node.exec, Wasm.execAll_singleton, Wasm.Node.exec]
  have hround := h.bind fun flow hflow => afterRound_ends hflow
  have hloop := hround.iterate (fun flow hflow => hflow flow rfl) trivial bound
  refine hloop.bind fun flow hflow => ?_
  cases flow with
  | next carried =>
    cases carried with
    | nil => exact .pure (.inl rfl)
    | cons _ _ => exact .stop trivial
  | br depth carried =>
    obtain rfl : depth = 0 := hflow
    exact .pure (.inl rfl)
  | ret results => exact .pure trivial

/-- The depth of a branch may be cut off, which makes it smaller. -/
theorem exitNodes_ends {labels : List Label} {e : Exit} (h : straysIn labels [e] = []) {more : Nat}
    (hmore : more ≤ 1) (stack : List Num) :
    Ends (Flow.Leaves labels false)
      (Wasm.execAll ops functionType invoke bound (exitNodes labels more) stack) := by
  obtain ⟨depth, hdepth⟩ := exists_loopDepth h
  have hcut : (UInt32.ofNat (depth + more)).toNat ≤ depth + more := Nat.mod_le _ _
  rw [exitNodes, hdepth, Wasm.execAll_singleton]
  exact .pure ⟨depth, hdepth, by omega⟩

/-- How the test of a loop ends: it goes on, or it leaves the loop. -/
theorem test_ends (stack : List Num) :
    Ends Flow.InRound (Wasm.execAll ops functionType invoke bound
      [.plain .i32Eqz, .plain (.brIf 1)] stack) := by
  change Ends Flow.InRound (Wasm.execAll ops functionType invoke bound
    ([.plain .i32Eqz] ++ [.plain (.brIf 1)]) stack)
  refine execAll_seq (execAll_plain rfl stack) fun stack => ?_
  rw [Wasm.execAll_singleton]
  refine popInt_ends (fun c stack => .pure ?_) stack
  split
  · trivial
  · exact Nat.le_refl 1

mutual

/-- The code of a statement that always returns does not come to its end, except in a loop. -/
theorem stmtNodes_ends (s : Stmt) {labels : List Label} (h : straysIn labels s.strayExits = [])
    (stack : List Num) :
    Ends (Flow.Leaves labels s.alwaysReturns)
      (Wasm.execAll ops functionType invoke bound (stmtNodes m labels s) stack) := by
  have hnext : ∀ flow : Flow, flow.IsNext → flow.Leaves labels false := by
    rintro flow ⟨stack, rfl⟩
    exact .inl rfl
  cases s with
  | assign slot value _ =>
    rw [stmtNodes]
    exact (execAll_seq (exprNodes_ends value stack) (execAll_plain rfl)).imp hnext
  | perform e _ =>
    rw [stmtNodes]
    refine (execAll_seq (exprNodes_ends e stack) fun stack => ?_).imp hnext
    split
    · exact .pure ⟨stack, rfl⟩
    · exact execAll_plain rfl stack
  | branch condition thenBody elseBody _ =>
    rw [Stmt.strayExits, straysIn_append, ← straysIn_branch labels,
      ← straysIn_branch labels] at h
    obtain ⟨hthen, helse⟩ := List.append_eq_nil_iff.mp h
    rw [stmtNodes, Stmt.alwaysReturns]
    have hbody := bodyNodes_ends thenBody hthen
    have hbody' := bodyNodes_ends elseBody helse
    refine execAll_seq (exprNodes_ends condition stack) fun stack => ?_
    rw [Wasm.execAll_singleton]
    cases elseBody with
    | nil =>
      refine popInt_ends (fun c stack => ?_) stack
      split
      · exact .pure (.inl (Bool.and_false _))
      · refine (hbody []).bind fun flow hflow => leave_ends hflow (fun hfalse => ?_) stack
        rw [hfalse, Bool.false_and]
    | cons s ss =>
      refine popInt_ends (fun c stack => ?_) stack
      split
      · refine (hbody' []).bind fun flow hflow => leave_ends hflow (fun hfalse => ?_) stack
        rw [hfalse, Bool.and_false]
      · refine (hbody []).bind fun flow hflow => leave_ends hflow (fun hfalse => ?_) stack
        rw [hfalse, Bool.false_and]
  | whileDo condition body _ =>
    rw [stmtNodes, List.append_assoc, List.append_assoc]
    refine loop_ends (execAll_seq (exprNodes_ends condition []) fun stack => ?_) stack
    refine execAll_append_ends (test_ends stack) (fun stack _ => ?_) fun _ _ hflow => hflow
    refine execAll_append_ends (bodyNodes_ends body (straysIn_loop _ _) stack)
      (fun stack _ => ?_) fun flow hnot hflow => ?_
    · rw [Wasm.execAll_singleton]
      exact .pure (Nat.zero_le 1)
    · cases flow with
      | next stack => exact absurd ⟨stack, rfl⟩ hnot
      | br depth stack =>
        obtain ⟨loop, hloop, hle⟩ := hflow
        obtain rfl : 0 = loop := Option.some.inj hloop
        exact hle
      | ret results => trivial
  | ret value _ =>
    have hret : ∀ stack, Ends (Flow.Leaves labels true)
        (Wasm.execAll ops functionType invoke bound [.plain .ret] stack) := by
      intro stack
      rw [Wasm.execAll_singleton]
      exact .pure trivial
    cases value with
    | none => exact hret stack
    | some value =>
      rw [stmtNodes]
      exact execAll_seq (exprNodes_ends value stack) hret
  | pass =>
    rw [stmtNodes]
    exact .pure (.inl rfl)
  | brk span => exact exitNodes_ends h (Nat.le_refl 1) stack
  | cont span => exact exitNodes_ends h (Nat.zero_le 1) stack

theorem bodyNodes_ends (ss : List Stmt) {labels : List Label}
    (h : straysIn labels (Typed.strayExits ss) = []) (stack : List Num) :
    Ends (Flow.Leaves labels (Typed.bodyReturns ss))
      (Wasm.execAll ops functionType invoke bound (bodyNodes m labels ss) stack) := by
  cases ss with
  | nil =>
    rw [bodyNodes]
    exact .pure (.inl rfl)
  | cons s ss =>
    rw [Typed.strayExits, straysIn_append] at h
    obtain ⟨hs, hss⟩ := List.append_eq_nil_iff.mp h
    rw [bodyNodes]
    refine execAll_append_ends (stmtNodes_ends s hs stack) (fun stack hflow => ?_)
      fun flow hnot hflow => ?_
    · refine (bodyNodes_ends ss hss stack).imp fun flow => Flow.Leaves.imp fun hreturns => ?_
      rcases hflow with hflow | hflow
      · left
        rw [Typed.bodyReturns, hflow, hreturns, Bool.or_false]
      · exact .inr hflow
    · cases flow with
      | next stack => exact absurd ⟨stack, rfl⟩ hnot
      | br depth stack => exact hflow
      | ret results => trivial

end

/-! ### Functions with a result -/

namespace Typed

theorem FunctionsChecked.returns {t t' : Callables} {fs : List (Surface.Function × Signature)}
    {gs : List Function} (h : FunctionsChecked t fs gs t') :
    ∀ g ∈ gs, g.signature.result.isSome = true → bodyReturns g.body = true := by
  induction h with
  | nil => exact fun _ hg => absurd hg List.not_mem_nil
  | cons hf _ ih =>
    intro g hg
    rcases List.mem_cons.mp hg with rfl | hg
    · cases hf with
      | intro _ _ returns => exact returns
    · exact ih g hg

/-- The checker asks that a function with a result returns. -/
theorem Module.bodyReturns_of_ofProgram {p : Surface.Program} {f : Function} {t : NumType}
    (h : Module.ofProgram p = .ok m) (hf : f ∈ m.functions)
    (hresult : f.signature.result = some t) : bodyReturns f.body = true := by
  cases Module.ofProgram_ok h with
  | intro _ hfunctions => exact hfunctions.returns f hf (by rw [hresult]; rfl)

/-- A run of the body of a function that is called with the given arguments. -/
def Module.bodyRun (m : Module) (ops : FloatOps) (host : Host (m.imports.map (·.signature)) σ)
    (f : Function) (args : List Num) (state : σ) (bound : Nat) :
    EStateM.Result Stop (Frame σ) Signal :=
  execAll ops (m.call ops host bound) bound f.body ⟨args ++ f.locals.map Num.zero, state⟩

variable {host : Host (m.imports.map (·.signature)) σ} {f : Function} {args : List Num} {state : σ}

/-- A larger bound changes nothing, except that a run may need it. -/
theorem Module.bodyRun_settles {n : Nat}
    (h : ¬ ∃ frame, m.bodyRun ops host f args state n = .error .timeout frame) :
    ∀ bound ≥ n, m.bodyRun ops host f args state bound = m.bodyRun ops host f args state n := by
  intro bound hbound
  have hbelow : Below (execAll ops (m.call ops host n) n f.body)
      (execAll ops (m.call ops host bound) bound f.body) :=
    execAll_below (call_below hbound) hbound f.body
  rcases hbelow ⟨args ++ f.locals.map Num.zero, state⟩ with htimeout | heq
  · exact absurd htimeout h
  · exact heq.symm

/-- Holds of the reasons to stop in a module.  A run is stuck only where an exit stands in no
    loop. -/
def Module.Stops (m : Module) (why : Stop) : Prop :=
  why = .stuck → ∃ g ∈ m.functions, strayExits g.body ≠ []

/-- The ways in which a run of a body with a result can end. -/
theorem Module.bodyRun_cases {t : NumType} (hm : m.WellTyped) (hf : f ∈ m.functions)
    (hresult : f.signature.result = some t) (hexits : strayExits f.body = [])
    (hargs : args.map Num.type = f.signature.params) (bound : Nat) :
    (∃ v frame, v.type = t ∧ m.bodyRun ops host f args state bound = .ok (.ret (some v)) frame) ∨
    ∃ why frame, m.bodyRun ops host f args state bound = .error why frame ∧ m.Stops why := by
  have hE : ∀ why, why ≠ .stuck → m.Stops why := fun why hwhy hstuck => absurd hstuck hwhy
  have hcall : Answers m m.Stops (m.call ops host bound) :=
    Module.call_keeps hm hE (fun g hg hstray _ => ⟨g, hg, hstray⟩) host bound
  have hreturns : Keeps (SlotTypes f.slots) m.Stops (Signal.Returns f.signature.result)
      (execAll ops (m.call ops host bound) bound f.body) :=
    execAll_keeps fun s hs => ((hm f hf).body s hs).exec_keeps hE hcall
  have hends : Ends (Signal.Leaves False (bodyReturns f.body))
      (execAll ops (m.call ops host bound) bound f.body) := execAll_ends f.body (.inr hexits)
  rcases (hreturns.and hends) ⟨args ++ f.locals.map Num.zero, state⟩ (type_slots hargs) with
    ⟨signal, frame, hrun, ⟨hreturn, hleaves⟩, -⟩ | ⟨why, frame, hrun, hwhy⟩
  · rw [(hm f hf).returns (by rw [hresult]; rfl)] at hleaves
    cases signal with
    | next | brk | cont => cases hleaves
    | ret value =>
      rw [hresult] at hreturn
      obtain ⟨v, rfl, hv⟩ := Option.map_eq_some_iff.mp hreturn
      exact .inl ⟨v, frame, hv, hrun⟩
  · exact .inr ⟨why, frame, hrun, hwhy⟩

/-- What becomes of a run of a body with a result once the bound is large enough, or if no
    bound is. -/
theorem Module.bodyRun_outcome {t : NumType} (hm : m.WellTyped) (hf : f ∈ m.functions)
    (hresult : f.signature.result = some t) (hexits : strayExits f.body = [])
    (hargs : args.map Num.type = f.signature.params) :
    (∃ n v frame, v.type = t ∧
      ∀ bound ≥ n, m.bodyRun ops host f args state bound = .ok (.ret (some v)) frame) ∨
    (∃ n frame, ∀ bound ≥ n, m.bodyRun ops host f args state bound = .error .trap frame) ∨
    (∀ bound, ∃ frame, m.bodyRun ops host f args state bound = .error .timeout frame) ∨
    (∃ n frame, ∀ bound ≥ n, m.bodyRun ops host f args state bound = .error .stuck frame) ∧
      ∃ g ∈ m.functions, strayExits g.body ≠ [] := by
  by_cases hforever :
      ∀ bound, ∃ frame, m.bodyRun ops host f args state bound = .error .timeout frame
  · exact .inr (.inr (.inl hforever))
  obtain ⟨n, hn⟩ := Classical.not_forall.mp hforever
  have hsettles := bodyRun_settles hn
  rcases bodyRun_cases hm hf hresult hexits hargs n with
    ⟨v, frame, hv, hrun⟩ | ⟨why, frame, hrun, hwhy⟩
  · rw [hrun] at hsettles
    exact .inl ⟨n, v, frame, hv, hsettles⟩
  · rw [hrun] at hsettles
    cases why with
    | trap => exact .inr (.inl ⟨n, frame, hsettles⟩)
    | timeout => exact absurd ⟨frame, hrun⟩ hn
    | stuck => exact .inr (.inr (.inr ⟨⟨n, frame, hsettles⟩, hwhy rfl⟩))

end Typed

/-- A body with a result ends by a return only, whatever its calls do, and with the calls of
    its module it returns a value of the declared type, traps, or goes on forever.  It is stuck
    only where a function is called that has no code, so never in a module all of whose
    functions are lowered.  The code of the body never comes to the `unreachable` behind it, so
    that this might as well be left out. -/
theorem body_never_ends_open {p : Surface.Program} {f : Typed.Function} {t : NumType}
    {code : List Instr} (h : Typed.Module.ofProgram p = .ok m) (hf : f ∈ m.functions)
    (hresult : f.signature.result = some t) (hcode : generate m f = .ok code) :
    (∀ {σ : Type} (ops : FloatOps) (call : Callee → List Num → Run σ (Option Num)) (bound : Nat)
      (frame frame' : Frame σ) (signal : Signal),
      Typed.execAll ops call bound f.body frame = .ok signal frame' →
        ∃ value, signal = .ret value) ∧
    ((∀ g ∈ m.functions, g.slots.length ≤ UInt32.size) →
      ∀ {σ : Type} (ops : FloatOps) (host : Host (m.imports.map (·.signature)) σ)
        (args : List Num) (state : σ), args.map Num.type = f.signature.params →
        (∃ n v frame, v.type = t ∧
          ∀ bound ≥ n, m.bodyRun ops host f args state bound = .ok (.ret (some v)) frame) ∨
        (∃ n frame, ∀ bound ≥ n, m.bodyRun ops host f args state bound = .error .trap frame) ∨
        (∀ bound, ∃ frame, m.bodyRun ops host f args state bound = .error .timeout frame) ∨
        (∃ n frame, ∀ bound ≥ n, m.bodyRun ops host f args state bound = .error .stuck frame) ∧
          ∃ g ∈ m.functions, ∀ code, generate m g ≠ .ok code) ∧
    ((∀ g ∈ m.functions, g.slots.length ≤ UInt32.size) →
      (∀ g ∈ m.functions, ∃ code, generate m g = .ok code) →
      ∀ {σ : Type} (ops : FloatOps) (host : Host (m.imports.map (·.signature)) σ)
        (args : List Num) (state : σ), args.map Num.type = f.signature.params →
        (∃ n v frame, v.type = t ∧
          ∀ bound ≥ n, m.bodyRun ops host f args state bound = .ok (.ret (some v)) frame) ∨
        (∃ n frame, ∀ bound ≥ n, m.bodyRun ops host f args state bound = .error .trap frame) ∨
        ∀ bound, ∃ frame, m.bodyRun ops host f args state bound = .error .timeout frame) ∧
    Wasm.structured? code = some (bodyNodes m [] f.body ++ [.plain .unreachable]) ∧
    ∀ {σ : Type} (ops : FloatOps) (functionType : Nat → Option FuncType)
      (invoke : Nat → List Num → Run σ (List Num)) (bound : Nat),
      Wasm.execAll ops functionType invoke bound
          (bodyNodes m [] f.body ++ [.plain .unreachable]) [] =
        Wasm.execAll ops functionType invoke bound (bodyNodes m [] f.body) [] := by
  obtain ⟨hexits, rfl⟩ := generate_complete hcode
  have hreturns := Typed.Module.bodyReturns_of_ofProgram h hf hresult
  refine ⟨?_, ?_, ?_, ?_, ?_⟩
  · intro σ ops call bound frame frame' signal hrun
    have hends : Ends (Signal.Leaves False (Typed.bodyReturns f.body))
        (Typed.execAll ops call bound f.body) := Typed.execAll_ends f.body (.inr hexits)
    have hsignal := hends.result hrun
    rw [hreturns] at hsignal
    cases signal with
    | next | brk | cont => cases hsignal
    | ret value => exact ⟨value, rfl⟩
  · intro hfits σ ops host args state hargs
    have hm := Typed.Module.wellTyped_of_ofProgram h hfits
    refine (Typed.Module.bodyRun_outcome hm hf hresult hexits hargs).imp_right
      (.imp_right (.imp_right fun ⟨hstuck, g, hg, hstray⟩ => ⟨hstuck, g, hg, ?_⟩))
    exact fun code hgen => hstray (generate_complete hgen).1
  · intro hfits hlowered σ ops host args state hargs
    have hm := Typed.Module.wellTyped_of_ofProgram h hfits
    refine (Typed.Module.bodyRun_outcome hm hf hresult hexits hargs).imp_right
      (.imp_right fun houtcome => houtcome.resolve_right ?_)
    rintro ⟨-, g, hg, hstray⟩
    obtain ⟨code, hgen⟩ := hlowered g hg
    exact hstray (generate_complete hgen).1
  · rw [Wasm.structured?_eq_some_iff, functionNodes, hresult]
    rfl
  · intro σ ops functionType invoke bound
    have hends : Ends (Flow.Leaves [] (Typed.bodyReturns f.body))
        (Wasm.execAll ops functionType invoke bound (bodyNodes m [] f.body) []) :=
      bodyNodes_ends f.body ((straysIn_nil _).trans hexits) []
    rw [Wasm.execAll_append]
    refine hends.bind_eq fun flow hflow => ?_
    rw [hreturns] at hflow
    cases flow with
    | next stack =>
      rcases hflow with hfalse | hloop
      · cases hfalse
      · cases hloop
    | br depth stack => rfl
    | ret stack => rfl

/-- A function that returns, traps or goes on forever, as its argument says:

        def f(x: int) -> int:
            while x < 0:
                if x == 0 - 9:
                    break
                pass
            if x == 0:
                return 1 / x
            else:
                if 0 < x:
                    return x
                else:
                    return 0 - x
-/
def threeWays : Surface.Program where
  imports := []
  functions :=
    [{ name := "f"
       params := [⟨"x", ⟨"int", .nowhere⟩, .nowhere⟩]
       result := some ⟨"int", .nowhere⟩
       body :=
         ⟨[.whileDo (.compare .lt (.symbol "x" .nowhere) (.number 0 .nowhere) .nowhere)
             ⟨[.ifThen (.compare .eq (.symbol "x" .nowhere)
                   (.binary .sub (.number 0 .nowhere) (.number 9 .nowhere) .nowhere) .nowhere)
                 ⟨[.brk .nowhere], .nowhere⟩ .nowhere,
               .pass .nowhere], .nowhere⟩ .nowhere,
           .ifElse (.compare .eq (.symbol "x" .nowhere) (.number 0 .nowhere) .nowhere)
             ⟨[.ret (some (.binary .div (.number 1 .nowhere) (.symbol "x" .nowhere) .nowhere))
               .nowhere], .nowhere⟩
             ⟨[.ifElse (.compare .lt (.number 0 .nowhere) (.symbol "x" .nowhere) .nowhere)
                 ⟨[.ret (some (.symbol "x" .nowhere)) .nowhere], .nowhere⟩
                 ⟨[.ret (some (.binary .sub (.number 0 .nowhere) (.symbol "x" .nowhere) .nowhere))
                   .nowhere], .nowhere⟩ .nowhere], .nowhere⟩ .nowhere], .nowhere⟩
       span := .nowhere }]

theorem threeWays_never_ends_open :
    ∃ m f code, Typed.Module.ofProgram threeWays = .ok m ∧ m.functions = [f] ∧
      f.signature.result = some .int ∧ generate m f = .ok code ∧
      ∀ (host : Host (m.imports.map (·.signature)) Unit) (x : Int32),
        (∃ n v frame, v.type = .int ∧
          ∀ bound ≥ n, m.bodyRun noFloats host f [.int x] () bound = .ok (.ret (some v)) frame) ∨
        (∃ n frame, ∀ bound ≥ n, m.bodyRun noFloats host f [.int x] () bound = .error .trap frame) ∨
        ∀ bound, ∃ frame, m.bodyRun noFloats host f [.int x] () bound = .error .timeout frame := by
  refine ⟨_, _, _, rfl, rfl, rfl, rfl, fun host x => ?_⟩
  obtain ⟨-, -, hruns, -⟩ := body_never_ends_open (p := threeWays) rfl List.mem_cons_self rfl rfl
  refine hruns (by decide) (fun g hg => ?_) noFloats host [.int x] () rfl
  obtain rfl := List.mem_singleton.mp hg
  exact ⟨_, rfl⟩

end Offside
