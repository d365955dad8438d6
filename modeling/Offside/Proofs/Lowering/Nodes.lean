/-
  Offside/Proofs/Lowering/Nodes.lean
  ==================================
  **The shape of lowered code.**  Lowering writes a function down as a flat list.  The list
  is structured code (`stmtNodes`): each construct of the source becomes a node, with its
  branches written as depths.  Lowering stops for a well-typed function at a `break` or
  `continue` that stands in no loop, at the first of them, and for nothing else
  (`lowerStmt_follows`).
-/
import Offside.Lowering
import Offside.Proofs.Typed.WellTyped
import Offside.Proofs.Wasm.Structured

namespace Offside

open Wasm (Instr Plain ValType Node flattenAll flattenAll_append)

/-! ### Exits that stand in no loop -/

/-- A `break` or `continue`, by its keyword and where it stands. -/
structure Exit where
  keyword : String
  position : Position
deriving DecidableEq, Repr

/-- Why lowering stops at an exit. -/
def Exit.diagnostic (e : Exit) : Diagnostic := ⟨.breakOutsideLoop e.keyword, e.position⟩

namespace Surface

mutual

/-- The exits of a statement that stand in no loop of it, in the order of the text. -/
def Stmt.strayExits : Stmt → List Exit
  | .ifThen _ body _ => body.strayExits
  | .ifElse _ body orElse _ => body.strayExits ++ orElse.strayExits
  | .brk span => [⟨"break", span.start⟩]
  | .cont span => [⟨"continue", span.start⟩]
  | .assign _ _ _ | .perform _ _ | .whileDo _ _ _ | .ret _ _ | .pass _ => []

def Block.strayExits : Block Stmt → List Exit
  | ⟨body, _⟩ => strayExits body

def strayExits : List Stmt → List Exit
  | [] => []
  | s :: ss => s.strayExits ++ strayExits ss

end

theorem Block.strayExits_eq (b : Block Stmt) : b.strayExits = Surface.strayExits b.body := by
  cases b
  rfl

/-- The exits of a program that stand in no loop of their function, in the order of the
    functions and of the text. -/
def Program.strayExits (p : Program) : List Exit := p.functions.flatMap (·.body.strayExits)

end Surface

namespace Typed

mutual

def Stmt.strayExits : Stmt → List Exit
  | .branch _ thenBody elseBody _ => strayExits thenBody ++ strayExits elseBody
  | .brk span => [⟨"break", span.start⟩]
  | .cont span => [⟨"continue", span.start⟩]
  | .assign _ _ _ | .perform _ _ | .whileDo _ _ _ | .ret _ _ | .pass => []

def strayExits : List Stmt → List Exit
  | [] => []
  | s :: ss => s.strayExits ++ strayExits ss

end

mutual

theorem StmtChecked.strayExits {t t' : Callables} {scope scope' : Scope} {st : Surface.Stmt}
    {st' : Stmt} (h : StmtChecked t scope st st' t' scope') :
    st'.strayExits = st.strayExits := by
  cases h with
  | ifThen _ _ hss =>
    simp [Stmt.strayExits, Surface.Stmt.strayExits, Surface.Block.strayExits, hss.strayExits,
      Typed.strayExits]
  | ifElse _ _ hss hos =>
    simp [Stmt.strayExits, Surface.Stmt.strayExits, Surface.Block.strayExits, hss.strayExits,
      hos.strayExits]
  | assign | perform | whileDo | retNone | ret | pass | brk | cont =>
    simp [Stmt.strayExits, Surface.Stmt.strayExits]

theorem StmtsChecked.strayExits {t t' : Callables} {scope scope' : Scope}
    {ss : List Surface.Stmt} {ss' : List Stmt} (h : StmtsChecked t scope ss ss' t' scope') :
    Typed.strayExits ss' = Surface.strayExits ss := by
  cases h with
  | nil => rfl
  | cons hs hss => simp [Typed.strayExits, Surface.strayExits, hs.strayExits, hss.strayExits]

end

theorem FunctionsChecked.strayExits {t t' : Callables}
    {fs : List (Surface.Function × Signature)} {gs : List Function}
    (h : FunctionsChecked t fs gs t') :
    gs.flatMap (fun g => Typed.strayExits g.body) = fs.flatMap (·.1.body.strayExits) := by
  induction h with
  | nil t => rfl
  | cons hf _ ih =>
    cases hf with
    | intro _ hbody _ => simp [ih, hbody.strayExits, Surface.Block.strayExits_eq]

/-- The typed form of a program has the same exits. -/
theorem ProgramChecked.strayExits {p : Surface.Program} {m : Module} (h : ProgramChecked p m) :
    m.functions.flatMap (fun g => Typed.strayExits g.body) = p.strayExits := by
  obtain @⟨t, t', functions, hdeclared, hfunctions⟩ := h
  have hby := Callables.declaredBy_of_ofProgram hdeclared
  have hfst : (p.functions.zip t.signatures).map Prod.fst = p.functions :=
    List.map_fst_zip (Nat.le_of_eq hby.functions.length_eq)
  calc functions.flatMap (fun g => Typed.strayExits g.body)
      = (p.functions.zip t.signatures).flatMap (·.1.body.strayExits) := hfunctions.strayExits
    _ = ((p.functions.zip t.signatures).map Prod.fst).flatMap (·.body.strayExits) := by
        rw [List.flatMap_map]
    _ = p.functions.flatMap (·.body.strayExits) := by rw [hfst]

end Typed

/-! ### Expressions -/

open Typed (Expr Stmt)

mutual

/-- The code of an expression. -/
def exprNodes (m : Typed.Module) : Expr → List Node
  | .int value _ _ => [.plain (.i32Const value)]
  | .float value _ _ => [.plain (.f64Const value)]
  | .slot slot _ _ => [.plain (.localGet slot)]
  | .binary op left right type _ =>
    match type with
    | .value t =>
      exprNodes m left ++ exprNodes m right ++ [.plain (.arith (ValType.ofNumType t) op)]
    | _ => []
  | .negate operand type _ =>
    match type with
    | .value .int => [.plain (.i32Const 0)] ++ exprNodes m operand ++ [.plain (.arith .i32 .sub)]
    | .value .float => exprNodes m operand ++ [.plain .f64Neg]
    | _ => []
  | .compare op operands left right _ _ =>
    exprNodes m left ++ exprNodes m right ++ [.plain (.compare (ValType.ofNumType operands) op)]
  | .logic op left right _ _ => exprNodes m left ++ exprNodes m right ++ [.plain (.logic op)]
  | .call callee arguments _ _ =>
    argNodes m arguments ++ [.plain (.call (functionIndex m callee))]

def argNodes (m : Typed.Module) : List Expr → List Node
  | [] => []
  | e :: es => exprNodes m e ++ argNodes m es

end

namespace Lowering

@[simp] theorem emit_append_emit (a b : List Instr) : emit a ++ emit b = emit (a ++ b) := rfl

theorem append_of_stop {a b : Lowering} (h : a.stop ≠ none) : a ++ b = a := by
  change append a b = a
  rw [append]
  cases ha : a.stop with
  | none => exact absurd ha h
  | some why => rfl

end Lowering

variable {sig : Typed.Callee → Option Signature} {slots : List NumType} {m : Typed.Module}

theorem lowerExprs_eq {es : List Expr} (labels : List Label)
    (h : ∀ e ∈ es, lowerExpr m labels e = .emit (flattenAll (exprNodes m e))) :
    lowerExprs m labels es = .emit (flattenAll (argNodes m es)) := by
  induction es with
  | nil => rfl
  | cons e es ih =>
    rw [lowerExprs, h e (by simp), ih fun e' he' => h e' (by simp [he']), argNodes]
    simp

/-- Lowering a well-typed expression does not stop. -/
theorem lowerExpr_eq {e : Expr} (h : e.WellTyped sig slots) (labels : List Label) :
    lowerExpr m labels e = .emit (flattenAll (exprNodes m e)) := by
  induction h with
  | int | float | slot => simp [lowerExpr, exprNodes, Plain.instr]
  | binary _ _ _ _ ihl ihr => simp [lowerExpr, exprNodes, Plain.instr, ihl, ihr]
  | @negate _ n _ _ _ ih => cases n <;> simp [lowerExpr, exprNodes, Plain.instr, ih]
  | compare _ _ _ _ ihl ihr => simp [lowerExpr, exprNodes, Plain.instr, ihl, ihr]
  | logic _ _ _ _ ihl ihr => simp [lowerExpr, exprNodes, Plain.instr, ihl, ihr]
  | call _ _ _ ih => simp [lowerExpr, exprNodes, Plain.instr, lowerExprs_eq labels ih]

/-! ### Statements -/

/-- The node of a branch, whose second half is left out if it is empty. -/
def branchNode : List Stmt → List Node → List Node → Node
  | [], body, _ => .ifThen body
  | _ :: _, body, orElse => .ifElse body orElse

/-- The branch to the loop around the code, or `more` constructs further out. -/
def exitNodes (labels : List Label) (more : Nat) : List Node :=
  match loopDepth? labels with
  | some depth => [.plain (.br (UInt32.ofNat (depth + more)))]
  | none => []

mutual

/-- The code of a statement inside the constructs `labels`. -/
def stmtNodes (m : Typed.Module) (labels : List Label) : Stmt → List Node
  | .assign slot value _ => exprNodes m value ++ [.plain (.localSet slot)]
  | .perform e _ => exprNodes m e ++ if e.type = .void then [] else [.plain .drop]
  | .branch condition thenBody elseBody _ =>
    exprNodes m condition ++
      [branchNode elseBody (bodyNodes m (.branch :: labels) thenBody)
        (bodyNodes m (.branch :: labels) elseBody)]
  | .whileDo condition body _ =>
    [.block [.loop (exprNodes m condition ++ [.plain .i32Eqz, .plain (.brIf 1)] ++
      bodyNodes m (.loop :: .block :: labels) body ++ [.plain (.br 0)])]]
  | .ret none _ => [.plain .ret]
  | .ret (some value) _ => exprNodes m value ++ [.plain .ret]
  | .pass => []
  | .brk _ => exitNodes labels 1
  | .cont _ => exitNodes labels 0

def bodyNodes (m : Typed.Module) (labels : List Label) : List Stmt → List Node
  | [] => []
  | s :: ss => stmtNodes m labels s ++ bodyNodes m labels ss

end

/-- The code of a function.  One with a result does not come to its end. -/
def functionNodes (m : Typed.Module) (f : Typed.Function) : List Node :=
  bodyNodes m [] f.body ++ if f.signature.result.isSome then [.plain .unreachable] else []

/-! ### Where lowering stops -/

/-- The exits that are stray inside the constructs `labels`. -/
def straysIn (labels : List Label) (exits : List Exit) : List Exit :=
  if .loop ∈ labels then [] else exits

@[simp] theorem straysIn_nil (exits : List Exit) : straysIn [] exits = exits := rfl

theorem straysIn_none (labels : List Label) : straysIn labels [] = [] := by simp [straysIn]

theorem straysIn_append (labels : List Label) (exits exits' : List Exit) :
    straysIn labels (exits ++ exits') = straysIn labels exits ++ straysIn labels exits' := by
  by_cases h : Label.loop ∈ labels <;> simp [straysIn, h]

theorem straysIn_branch (labels : List Label) (exits : List Exit) :
    straysIn (.branch :: labels) exits = straysIn labels exits := by simp [straysIn]

theorem straysIn_loop (labels : List Label) (exits : List Exit) :
    straysIn (.loop :: labels) exits = [] := by simp [straysIn]

namespace Lowering

/-- The lowering is complete with the given code or, if there are stray exits, it stops at
    the first. -/
def Follows (l : Lowering) (code : List Instr) : List Exit → Prop
  | [] => l = emit code
  | e :: _ => ∃ labels, l.stop = some (e.diagnostic, labels)

variable {l l' : Lowering} {code code' : List Instr} {exits exits' : List Exit}

theorem Follows.emit (code : List Instr) : (emit code).Follows code [] := rfl

theorem Follows.append (h : l.Follows code exits) (h' : l'.Follows code' exits') :
    (l ++ l').Follows (code ++ code') (exits ++ exits') := by
  cases exits with
  | nil =>
    obtain rfl : l = Lowering.emit code := h
    cases exits' with
    | nil =>
      obtain rfl : l' = Lowering.emit code' := h'
      rfl
    | cons e es => exact h'
  | cons e es =>
    obtain ⟨labels, hstop⟩ := h
    refine ⟨labels, ?_⟩
    rw [append_of_stop (by simp [hstop]), hstop]

/-- What stands around code does not change where it stops. -/
theorem Follows.enclose (label : Label) (h : l.Follows code exits) :
    (enclose label l).Follows (label.opening :: (code ++ [.endBlock])) exits := by
  have hopen := (Follows.emit [label.opening]).append h
  simpa [Lowering.enclose] using hopen.append (.emit [.endBlock])

theorem Follows.result_ok (h : l.Follows code []) : l.result = .ok code := by
  obtain rfl : l = Lowering.emit code := h
  rfl

theorem Follows.result_error {e : Exit} (h : l.Follows code (e :: exits)) :
    l.result = .error e.diagnostic := by
  obtain ⟨labels, hstop⟩ := h
  rw [result, hstop]

end Lowering

open Lowering

theorem lowerBranch_follows {labels : List Label} (e : Exit) (more : Nat)
    {depth : Except Diagnostic UInt32}
    (h : depth = match loopDepth? labels with
      | some depth => .ok (UInt32.ofNat (depth + more))
      | none => .error e.diagnostic) :
    (lowerBranch labels depth).Follows (flattenAll (exitNodes labels more))
      (straysIn labels [e]) := by
  subst h
  cases hdepth : loopDepth? labels with
  | some depth =>
    have hloop : Label.loop ∈ labels := by
      rw [← List.isSome_idxOf?, ← loopDepth?, hdepth]
      rfl
    simp [lowerBranch, exitNodes, hdepth, straysIn, hloop, Follows, Plain.instr]
  | none =>
    have hloop : Label.loop ∉ labels := List.idxOf?_eq_none_iff.mp hdepth
    simp [lowerBranch, straysIn, hloop, Follows]

theorem lowerStmts_follows {ss : List Stmt}
    (h : ∀ s ∈ ss, ∀ labels, (lowerStmt m labels s).Follows (flattenAll (stmtNodes m labels s))
      (straysIn labels s.strayExits)) (labels : List Label) :
    (lowerStmts m labels ss).Follows (flattenAll (bodyNodes m labels ss))
      (straysIn labels (Typed.strayExits ss)) := by
  induction ss with
  | nil =>
    rw [Typed.strayExits, straysIn_none]
    exact .emit []
  | cons s ss ih =>
    rw [lowerStmts, bodyNodes, flattenAll_append, Typed.strayExits, straysIn_append]
    exact (h s (by simp) labels).append (ih fun s' hs' => h s' (by simp [hs']))

/-- Lowering a well-typed statement stops at its first stray exit, if it has one. -/
theorem lowerStmt_follows {result : Option NumType} {s : Stmt}
    (h : s.WellTyped sig slots result) (labels : List Label) :
    (lowerStmt m labels s).Follows (flattenAll (stmtNodes m labels s))
      (straysIn labels s.strayExits) := by
  induction h generalizing labels with
  | assign he _ _ =>
    rw [lowerStmt, lowerExpr_eq he, Stmt.strayExits, straysIn_none]
    simp [stmtNodes, Plain.instr, Follows]
  | @perform e _ he =>
    rw [lowerStmt, lowerExpr_eq he, Stmt.strayExits, straysIn_none]
    by_cases hvoid : e.type = .void <;> simp [stmtNodes, Plain.instr, dropValue, Follows, hvoid]
  | @branch e ss ss' _ he _ _ _ hss hss' =>
    rw [lowerStmt, lowerExpr_eq he, Stmt.strayExits, straysIn_append, ← straysIn_branch labels,
      ← straysIn_branch labels]
    have hthen := lowerStmts_follows hss (.branch :: labels)
    cases ss' with
    | nil =>
      have h := (hthen.append (.emit [])).enclose .branch
      simpa [stmtNodes, branchNode, lowerElse, Node.flatten, Typed.strayExits, straysIn_none,
        Label.opening]
        using (Follows.emit (flattenAll (exprNodes m e))).append h
    | cons s' ss' =>
      have helse := lowerStmts_follows hss' (.branch :: labels)
      have h := (hthen.append ((Follows.emit [.elseThen]).append helse)).enclose .branch
      simpa [stmtNodes, branchNode, lowerElse, lowerStmts, Node.flatten, Label.opening]
        using (Follows.emit (flattenAll (exprNodes m e))).append h
  | @whileDo e _ _ he _ _ hss =>
    rw [lowerStmt, lowerExpr_eq he, Stmt.strayExits, straysIn_none]
    have hbody := lowerStmts_follows hss (.loop :: .block :: labels)
    rw [straysIn_loop] at hbody
    have htest := (Follows.emit (flattenAll (exprNodes m e))).append (.emit [.i32Eqz, .brIf 1])
    have h := ((htest.append hbody).append (.emit [.br 0])).enclose .loop
    simpa [stmtNodes, Node.flatten, Plain.instr, Label.opening] using h.enclose .block
  | retNone _ =>
    rw [Stmt.strayExits, straysIn_none]
    exact .emit [.ret]
  | ret _ he _ =>
    rw [lowerStmt, lowerExpr_eq he, Stmt.strayExits, straysIn_none]
    simp [stmtNodes, Plain.instr, Follows]
  | pass =>
    rw [Stmt.strayExits, straysIn_none]
    exact .emit []
  | brk span => exact lowerBranch_follows ⟨"break", span.start⟩ 1 rfl
  | cont span => exact lowerBranch_follows ⟨"continue", span.start⟩ 0 rfl

/-- Lowering a well-typed function stops at its first stray exit, if it has one. -/
theorem lowerFunction_follows {f : Typed.Function} (h : f.WellTyped m) :
    (lowerFunction m f).Follows (flattenAll (functionNodes m f)) (Typed.strayExits f.body) := by
  have hbody := lowerStmts_follows (m := m) (fun s hs => lowerStmt_follows (h.body s hs)) []
  rw [straysIn_nil] at hbody
  rw [lowerFunction, functionNodes, flattenAll_append]
  have hend : flattenAll (if f.signature.result.isSome then [.plain .unreachable] else []) =
      if f.signature.result.isSome then [Instr.unreachable] else [] := by
    split <;> rfl
  rw [hend]
  simpa using hbody.append (.emit (if f.signature.result.isSome then [.unreachable] else []))

theorem generate_of_no_strayExits {f : Typed.Function} (h : f.WellTyped m)
    (hexits : Typed.strayExits f.body = []) :
    generate m f = .ok (flattenAll (functionNodes m f)) := by
  have hfollows := lowerFunction_follows h
  rw [hexits] at hfollows
  exact hfollows.result_ok

theorem generate_of_strayExit {f : Typed.Function} (h : f.WellTyped m) {e : Exit}
    {exits : List Exit} (hexits : Typed.strayExits f.body = e :: exits) :
    generate m f = .error e.diagnostic := by
  have hfollows := lowerFunction_follows h
  rw [hexits] at hfollows
  exact hfollows.result_error

/-- What lowering makes of a well-typed function, if it comes to an end. -/
theorem generate_ok {f : Typed.Function} (h : f.WellTyped m) {body : List Instr}
    (hbody : generate m f = .ok body) :
    Typed.strayExits f.body = [] ∧ flattenAll (functionNodes m f) = body := by
  cases hexits : Typed.strayExits f.body with
  | nil => exact ⟨rfl, Except.ok.inj ((generate_of_no_strayExits h hexits).symm.trans hbody)⟩
  | cons e exits => cases (generate_of_strayExit h hexits).symm.trans hbody

end Offside
