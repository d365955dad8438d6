/-
  Offside/Proofs/Lowering/Alike.lean
  ==================================
  **Where a module stands makes no difference to its code.**  Typed modules that differ in
  their spans alone are lowered to one and the same WebAssembly module, or refused for the
  same cause at related positions (`lowerModule_alike`).
-/
import Offside.Lowering
import Offside.Proofs.Typed.Alike

namespace Offside

open Wasm (Instr ValType FuncType)

variable {R : Position → Position → Prop} {m m' : Typed.Module}

/-- The code is the same, and if it is not complete then for the same cause. -/
structure Lowering.Alike (R : Position → Position → Prop) (a b : Lowering) : Prop where
  code : a.code = b.code
  stop : Option.Rel (fun p q => p.1.Alike R q.1) a.stop b.stop

namespace Lowering.Alike

theorem emit (code : List Instr) : (Lowering.emit code).Alike R (Lowering.emit code) :=
  ⟨rfl, .none⟩

theorem refuse (cause : Cause) {p p' : Position} (h : R p p') (labels : List Label) :
    (Lowering.refuse cause p labels).Alike R (Lowering.refuse cause p' labels) :=
  ⟨rfl, .some ⟨rfl, h⟩⟩

theorem append {a a' b b' : Lowering} (ha : a.Alike R a') (hb : b.Alike R b') :
    (a ++ b).Alike R (a' ++ b') := by
  obtain ⟨code, stop⟩ := a
  obtain ⟨code', stop'⟩ := a'
  obtain ⟨hcode, hstop⟩ := ha
  cases hstop with
  | none => exact ⟨congrArg₂ (· ++ ·) hcode hb.code, hb.stop⟩
  | some why => exact ⟨hcode, .some why⟩

theorem enclose (label : Label) {a a' : Lowering} (h : a.Alike R a') :
    (Lowering.enclose label a).Alike R (Lowering.enclose label a') :=
  ((emit _).append h).append (emit _)

theorem result {a a' : Lowering} (h : a.Alike R a') :
    ResultAlike R Eq a.result a'.result := by
  obtain ⟨code, stop⟩ := a
  obtain ⟨code', stop'⟩ := a'
  obtain ⟨hcode, hstop⟩ := h
  cases hstop with
  | none => exact .ok hcode
  | some why => exact .error why

end Lowering.Alike

/-! ### Expressions and statements -/

theorem Typed.Module.Alike.functionIndex (h : m.Alike R m') (callee : Typed.Callee) :
    functionIndex m callee = functionIndex m' callee := by
  cases callee with
  | imported index => rfl
  | defined index =>
    simp only [Offside.functionIndex, Typed.Module.indexOf, h.imports.length_eq]

mutual

theorem lowerExpr_alike (hm : m.Alike R m') (labels : List Label) :
    ∀ {e e' : Typed.Expr}, e.Alike R e' →
      (lowerExpr m labels e).Alike R (lowerExpr m' labels e')
  | _, _, .int value t _ => by
    rw [lowerExpr, lowerExpr]
    exact .emit _
  | _, _, .float value t _ => by
    rw [lowerExpr, lowerExpr]
    exact .emit _
  | _, _, .slot index t _ => by
    rw [lowerExpr, lowerExpr]
    exact .emit _
  | _, _, .binary op t hl hr hs => by
    cases t with
    | value t =>
      rw [lowerExpr, lowerExpr]
      exact ((lowerExpr_alike hm labels hl).append (lowerExpr_alike hm labels hr)).append
        (.emit _)
    | bool | void =>
      simp only [lowerExpr]
      exact .refuse _ hs labels
  | _, _, .negate t he hs => by
    rcases t with (_ | _) | _ | _
    · rw [lowerExpr, lowerExpr]
      exact ((Lowering.Alike.emit _).append (lowerExpr_alike hm labels he)).append (.emit _)
    · rw [lowerExpr, lowerExpr]
      exact (lowerExpr_alike hm labels he).append (.emit _)
    · simp only [lowerExpr]
      exact .refuse _ hs labels
    · simp only [lowerExpr]
      exact .refuse _ hs labels
  | _, _, .compare op operands t hl hr _ => by
    rw [lowerExpr, lowerExpr]
    exact ((lowerExpr_alike hm labels hl).append (lowerExpr_alike hm labels hr)).append
      (.emit _)
  | _, _, .logic op t hl hr _ => by
    rw [lowerExpr, lowerExpr]
    exact ((lowerExpr_alike hm labels hl).append (lowerExpr_alike hm labels hr)).append
      (.emit _)
  | _, _, .call callee t hes _ => by
    rw [lowerExpr, lowerExpr, ← hm.functionIndex callee]
    exact (lowerExprs_alike hm labels hes).append (.emit _)

theorem lowerExprs_alike (hm : m.Alike R m') (labels : List Label) :
    ∀ {es es' : List Typed.Expr}, Typed.ExprsAlike R es es' →
      (lowerExprs m labels es).Alike R (lowerExprs m' labels es')
  | _, _, .nil => by
    rw [lowerExprs, lowerExprs]
    exact .emit _
  | _, _, .cons he hes => by
    rw [lowerExprs, lowerExprs]
    exact (lowerExpr_alike hm labels he).append (lowerExprs_alike hm labels hes)

end

theorem lowerBranch_alike (labels : List Label) {x y : Except Diagnostic UInt32}
    (h : ResultAlike R Eq x y) : (lowerBranch labels x).Alike R (lowerBranch labels y) := by
  cases h with
  | ok value =>
    subst value
    exact .emit _
  | error why => exact ⟨rfl, .some why⟩

theorem breakDepth_alike (labels : List Label) (keyword : String) {s s' : Span}
    (h : s.Alike R s') :
    ResultAlike R Eq (breakDepth labels keyword s) (breakDepth labels keyword s') := by
  rw [breakDepth, breakDepth]
  cases loopDepth? labels with
  | some depth => exact .ok rfl
  | none => exact .error ⟨rfl, h⟩

theorem continueDepth_alike (labels : List Label) (keyword : String) {s s' : Span}
    (h : s.Alike R s') :
    ResultAlike R Eq (continueDepth labels keyword s) (continueDepth labels keyword s') := by
  rw [continueDepth, continueDepth]
  cases loopDepth? labels with
  | some depth => exact .ok rfl
  | none => exact .error ⟨rfl, h⟩

mutual

theorem lowerStmt_alike (hm : m.Alike R m') (labels : List Label) :
    ∀ {s s' : Typed.Stmt}, s.Alike R s' →
      (lowerStmt m labels s).Alike R (lowerStmt m' labels s')
  | _, _, .assign index he _ => by
    rw [lowerStmt, lowerStmt]
    exact (lowerExpr_alike hm labels he).append (.emit _)
  | _, _, .perform he _ => by
    rw [lowerStmt, lowerStmt, ← he.type]
    refine (lowerExpr_alike hm labels he).append ?_
    unfold dropValue
    split
    · exact .emit _
    · exact .emit _
  | _, _, .branch he hb ho _ => by
    rw [lowerStmt, lowerStmt]
    refine (lowerExpr_alike hm labels he).append (.enclose .branch ?_)
    exact (lowerStmts_alike hm _ hb).append (lowerElse_alike hm _ ho)
  | _, _, .whileDo he hb _ => by
    rw [lowerStmt, lowerStmt]
    refine .enclose .block (.enclose .loop ?_)
    exact (((lowerExpr_alike hm _ he).append (.emit _)).append
      (lowerStmts_alike hm _ hb)).append (.emit _)
  | _, _, .ret .none _ => by
    rw [lowerStmt, lowerStmt]
    exact .emit _
  | _, _, .ret (.some he) _ => by
    rw [lowerStmt, lowerStmt]
    exact (lowerExpr_alike hm labels he).append (.emit _)
  | _, _, .pass => by
    rw [lowerStmt, lowerStmt]
    exact .emit _
  | _, _, .brk hs => by
    rw [lowerStmt, lowerStmt]
    exact lowerBranch_alike labels (breakDepth_alike labels _ hs)
  | _, _, .cont hs => by
    rw [lowerStmt, lowerStmt]
    exact lowerBranch_alike labels (continueDepth_alike labels _ hs)

theorem lowerElse_alike (hm : m.Alike R m') (labels : List Label) :
    ∀ {ss ss' : List Typed.Stmt}, Typed.StmtsAlike R ss ss' →
      (lowerElse m labels ss).Alike R (lowerElse m' labels ss')
  | _, _, .nil => by
    rw [lowerElse, lowerElse]
    exact .emit _
  | _, _, .cons hs hss => by
    rw [lowerElse, lowerElse]
    exact (Lowering.Alike.emit _).append
      ((lowerStmt_alike hm labels hs).append (lowerStmts_alike hm labels hss))

theorem lowerStmts_alike (hm : m.Alike R m') (labels : List Label) :
    ∀ {ss ss' : List Typed.Stmt}, Typed.StmtsAlike R ss ss' →
      (lowerStmts m labels ss).Alike R (lowerStmts m' labels ss')
  | _, _, .nil => by
    rw [lowerStmts, lowerStmts]
    exact .emit _
  | _, _, .cons hs hss => by
    rw [lowerStmts, lowerStmts]
    exact (lowerStmt_alike hm labels hs).append (lowerStmts_alike hm labels hss)

end

/-! ### Functions and modules -/

theorem generate_alike (hm : m.Alike R m') {f f' : Typed.Function} (hf : f.Alike R f') :
    ResultAlike R Eq (generate m f) (generate m' f') := by
  rw [generate, generate, lowerFunction, lowerFunction, ← hf.signature]
  exact ((lowerStmts_alike hm [] hf.body).append (.emit _)).result

theorem stackContext_alike (hm : m.Alike R m') {f f' : Typed.Function} (hf : f.Alike R f') :
    stackContext m f = stackContext m' f' := by
  have himports : (m.imports.map fun i => FuncType.ofSignature i.signature) =
      m'.imports.map fun i => FuncType.ofSignature i.signature :=
    List.forall₂_eq_eq_eq ▸
      List.rel_map (fun _ _ hi => congrArg FuncType.ofSignature hi.signature) hm.imports
  have hfunctions : (m.functions.map fun f => FuncType.ofSignature f.signature) =
      m'.functions.map fun f => FuncType.ofSignature f.signature :=
    List.forall₂_eq_eq_eq ▸
      List.rel_map (fun _ _ hf => congrArg FuncType.ofSignature hf.signature) hm.functions
  simp only [stackContext, Typed.Function.slots, hf.signature, hf.locals, himports, hfunctions]

theorem verify_alike (hm : m.Alike R m') {f f' : Typed.Function} (hf : f.Alike R f')
    (body : List Instr) : ResultAlike R Eq (verify m f body) (verify m' f' body) := by
  rw [verify, verify, stackContext_alike hm hf, hf.name]
  cases Wasm.checkBody (stackContext m' f') body with
  | ok u => exact .ok rfl
  | error fault => exact .error ⟨rfl, hf.span⟩

theorem addImports_alike {is is' : List Typed.Import}
    (h : List.Forall₂ Typed.Import.Alike is is') (w : Wasm.Module) :
    addImports w is = addImports w is' := by
  induction h generalizing w with
  | nil => rfl
  | cons hi _ ih => rw [addImports, addImports, hi.module, hi.name, hi.signature, ih]

theorem addFunctions_alike (hm : m.Alike R m') {fs fs' : List Typed.Function}
    (h : List.Forall₂ (Typed.Function.Alike R) fs fs') (w : Wasm.Module) :
    ResultAlike R Eq (addFunctions m w fs).2 (addFunctions m' w fs').2 := by
  induction h generalizing w with
  | nil => exact .ok rfl
  | @cons f f' fs fs' hf _ ih =>
    rw [addFunctions, addFunctions]
    have hbody := generate_alike hm hf
    generalize generate m f = x, generate m' f' = y at hbody
    cases hbody with
    | error why => exact .error why
    | @ok body _ hbody =>
      subst hbody
      have hverify := verify_alike hm hf body
      dsimp only
      generalize verify m f body = x, verify m' f' body = y at hverify
      cases hverify with
      | error why => exact .error why
      | ok _ =>
        have hadd : addFunction w f body = addFunction w f' body := by
          simp only [addFunction, hf.name, hf.signature, hf.locals]
        rw [hadd]
        exact ih _

/-- Typed modules that differ in their spans alone have the same WebAssembly module, or none
    for the same cause. -/
theorem lowerModule_alike (h : m.Alike R m') :
    ResultAlike R Eq (lowerModule m).2 (lowerModule m').2 := by
  rw [lowerModule, lowerModule, addImports_alike h.imports]
  exact addFunctions_alike h h.functions _

end Offside
