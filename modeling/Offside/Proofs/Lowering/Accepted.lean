/-
  Offside/Proofs/Lowering/Accepted.lean
  =====================================
  **Lowered code is well typed.**  The code of an expression pushes one value of its type
  and the code of a statement leaves the stack as it was (`exprNodes_typed`,
  `stmtNodes_typed`).  The labels that lowering keeps are the constructs that the typing
  rules see, and each loop among them stands directly inside its block (`Nested`), so a
  branch never points outside of the function.

  The operand-stack check therefore accepts every function that lowering completes, and a
  `break` or `continue` outside of a loop is all that lowering a checked program can stop
  at.

  Indices are 32 bits wide.  All of this holds of a module with no more callees, slots and
  nested constructs than that (`Typed.Module.Indexable`).
-/
import Offside.Proofs.Lowering.Nodes
import Offside.Proofs.Wasm.StackCheck

namespace Offside

open Wasm (Instr ValType FuncType Node Plain CodeType PlainType NodeType flattenAll)
open Typed (Expr Stmt)

/-! ### Indices of 32 bits -/

mutual

/-- How many constructs stand inside one another in the code of a statement. -/
def Typed.Stmt.nesting : Stmt → Nat
  | .branch _ thenBody elseBody _ => 1 + max (Typed.nesting thenBody) (Typed.nesting elseBody)
  | .whileDo _ body _ => 2 + Typed.nesting body
  | .assign _ _ _ | .perform _ _ | .ret _ _ | .pass | .brk _ | .cont _ => 0

def Typed.nesting : List Stmt → Nat
  | [] => 0
  | s :: ss => max s.nesting (Typed.nesting ss)

end

/-- Holds of a module in which an index of 32 bits reaches every callee, every slot and
    every construct around a statement. -/
structure Typed.Module.Indexable (m : Typed.Module) : Prop where
  callees : m.imports.length + m.functions.length ≤ UInt32.size
  slots : ∀ f ∈ m.functions, f.slots.length ≤ UInt32.size
  labels : ∀ f ∈ m.functions, Typed.nesting f.body ≤ UInt32.size

theorem indexOf_lt {m : Typed.Module} {callee : Typed.Callee} {s : Signature}
    (h : m.signatureOf callee = some s) :
    m.indexOf callee < m.imports.length + m.functions.length := by
  cases callee with
  | imported index =>
    obtain ⟨i, hi, -⟩ := Option.map_eq_some_iff.mp h
    have := (List.getElem?_eq_some_iff.mp hi).1
    simp only [Typed.Module.indexOf]
    omega
  | defined index =>
    obtain ⟨f, hf, -⟩ := Option.map_eq_some_iff.mp h
    have := (List.getElem?_eq_some_iff.mp hf).1
    simp only [Typed.Module.indexOf]
    omega

theorem toNat_functionIndex {m : Typed.Module} {callee : Typed.Callee} {s : Signature}
    (callees : m.imports.length + m.functions.length ≤ UInt32.size)
    (h : m.signatureOf callee = some s) : (functionIndex m callee).toNat = m.indexOf callee :=
  UInt32.toNat_ofNat_of_lt' (by have := indexOf_lt h; omega)

/-- The signature of the import or function with the given index, where the imports take
    the first indices and the functions follow. -/
def Typed.Module.signature? (m : Typed.Module) (index : Nat) : Option Signature :=
  (m.imports.map (·.signature) ++ m.functions.map (·.signature))[index]?

theorem signature?_indexOf {m : Typed.Module} {callee : Typed.Callee} {s : Signature}
    (h : m.signatureOf callee = some s) : m.signature? (m.indexOf callee) = some s := by
  cases callee with
  | imported index =>
    obtain ⟨i, hi, rfl⟩ := Option.map_eq_some_iff.mp h
    have := (List.getElem?_eq_some_iff.mp hi).1
    rw [Typed.Module.signature?, Typed.Module.indexOf, List.getElem?_append_left (by simpa)]
    simp [hi]
  | defined index =>
    obtain ⟨f, hf, rfl⟩ := Option.map_eq_some_iff.mp h
    rw [Typed.Module.signature?, Typed.Module.indexOf, List.getElem?_append_right (by simp)]
    simp [hf]

theorem callees_stackContext (m : Typed.Module) (f : Typed.Function) :
    (stackContext m f).imports ++ (stackContext m f).functions =
      (m.imports.map (·.signature) ++ m.functions.map (·.signature)).map FuncType.ofSignature := by
  simp [stackContext, Function.comp_def]

/-! ### Expressions -/

/-- What an expression of the given type leaves on the stack. -/
def ExprType.valTypes : ExprType → List ValType
  | .value n => [ValType.ofNumType n]
  | .bool => [.i32]
  | .void => []

variable {m : Typed.Module} {f : Typed.Function} {fs : List Typed.Function}

theorem valTypes_ofResult (s : Signature) :
    (ExprType.ofResult s.result).valTypes = (FuncType.ofSignature s).results := by
  cases hr : s.result <;> simp [ExprType.ofResult, ExprType.valTypes, FuncType.ofSignature, hr]

theorem argNodes_typed {labels : List (List ValType)} {es : List Expr}
    (h : ∀ e ∈ es, CodeType (stackContext m f) labels (exprNodes m e) [] e.type.valTypes) :
    CodeType (stackContext m f) labels (argNodes m es) []
      (es.flatMap (·.type.valTypes)) := by
  induction es with
  | nil => exact .nil labels []
  | cons e es ih =>
    have hes := (ih fun e' he' => h e' (by simp [he'])).over e.type.valTypes
    rw [List.append_nil] at hes
    exact (h e (by simp)).append hes

/-- The code of an expression pushes a value of its type. -/
theorem exprNodes_typed (callees : m.imports.length + m.functions.length ≤ UInt32.size)
    {e : Expr} (h : e.WellTyped m.signatureOf f.slots) (labels : List (List ValType)) :
    CodeType (stackContext m f) labels (exprNodes m e) [] e.type.valTypes := by
  induction h with
  | int value _ => exact (PlainType.i32Const value).code
  | float value _ => exact (PlainType.f64Const value).code
  | slot declared =>
    refine (PlainType.localGet ?_).code
    simp [stackContext, declared]
  | @binary op _ _ n _ _ _ tl tr hl hr =>
    rw [tl] at hl
    rw [tr] at hr
    exact (hl.append (hr.over [ValType.ofNumType n])).append (PlainType.arith _ op).code
  | @negate _ n _ _ te he =>
    rw [te] at he
    cases n with
    | int =>
      exact ((PlainType.i32Const 0).code.append (he.over [.i32])).append
        (PlainType.arith .i32 .sub).code
    | float => exact he.append PlainType.f64Neg.code
  | @compare op _ _ n _ _ _ tl tr hl hr =>
    rw [tl] at hl
    rw [tr] at hr
    exact (hl.append (hr.over [ValType.ofNumType n])).append (PlainType.compare _ op).code
  | @logic op _ _ _ _ _ tl tr hl hr =>
    rw [tl] at hl
    rw [tr] at hr
    exact (hl.append (hr.over [.i32])).append (PlainType.logic op).code
  | @call callee args signature _ _ known types hargs =>
    have hcallee : ((stackContext m f).imports ++
        (stackContext m f).functions)[(functionIndex m callee).toNat]? =
          some (FuncType.ofSignature signature) := by
      rw [toNat_functionIndex callees known, callees_stackContext, List.getElem?_map,
        ← Typed.Module.signature?, signature?_indexOf known]
      rfl
    have hparams : args.flatMap (·.type.valTypes) = (FuncType.ofSignature signature).params := by
      rw [← List.flatMap_map, types, List.flatMap_map]
      exact List.map_eq_flatMap.symm
    have hes := argNodes_typed hargs
    rw [hparams] at hes
    rw [Expr.type, valTypes_ofResult]
    exact hes.append (PlainType.call hcallee).code

/-! ### Statements -/

/-- Holds of labels that can lie around a statement: each loop is directly inside its
    block. -/
inductive Nested : List Label → Prop where
  | nil : Nested []
  | branch {labels : List Label} (h : Nested labels) : Nested (.branch :: labels)
  | loop {labels : List Label} (h : Nested labels) : Nested (.loop :: .block :: labels)

theorem Nested.loopDepth_lt {labels : List Label} {depth : Nat} (h : Nested labels)
    (hdepth : loopDepth? labels = some depth) : depth + 1 < labels.length := by
  induction h generalizing depth with
  | nil => simp [loopDepth?] at hdepth
  | branch _ ih =>
    obtain ⟨inner, hinner, rfl⟩ : ∃ inner, loopDepth? _ = some inner ∧ inner + 1 = depth := by
      simpa [loopDepth?, List.idxOf?_cons] using hdepth
    have := ih hinner
    simp only [List.length_cons]
    omega
  | loop _ _ =>
    obtain rfl : 0 = depth := by simpa [loopDepth?, List.idxOf?_cons] using hdepth
    simp

theorem exists_loopDepth {labels : List Label} {e : Exit} (h : straysIn labels [e] = []) :
    ∃ depth, loopDepth? labels = some depth := by
  refine Option.isSome_iff_exists.mp ?_
  rw [loopDepth?, List.isSome_idxOf?]
  by_cases hloop : Label.loop ∈ labels
  · exact hloop
  · simp [straysIn, hloop] at h

/-- What a branch to each of the constructs around a statement carries. -/
def labelTypes (f : Typed.Function) (labels : List Label) : List (List ValType) :=
  labels.map (fun _ => []) ++ [(FuncType.ofSignature f.signature).results]

theorem labelTypes_cons (label : Label) (labels : List Label) :
    labelTypes f (label :: labels) = [] :: labelTypes f labels := rfl

theorem exitNodes_typed {labels : List Label} {e : Exit} {more : Nat} (nested : Nested labels)
    (deep : labels.length ≤ UInt32.size) (hmore : more ≤ 1) (h : straysIn labels [e] = []) :
    CodeType (stackContext m f) (labelTypes f labels) (exitNodes labels more) [] [] := by
  obtain ⟨depth, hdepth⟩ := exists_loopDepth h
  have hlt := nested.loopDepth_lt hdepth
  have htoNat : (UInt32.ofNat (depth + more)).toNat = depth + more :=
    UInt32.toNat_ofNat_of_lt' (by omega)
  have htarget : (labelTypes f labels)[(UInt32.ofNat (depth + more)).toNat]? = some [] := by
    rw [htoNat, labelTypes, List.getElem?_append_left (by simp; omega), List.getElem?_map,
      List.getElem?_eq_getElem (by omega)]
    rfl
  rw [exitNodes, hdepth]
  exact (PlainType.br [] [] htarget).code

theorem bodyNodes_typed {ss : List Stmt}
    (h : ∀ s ∈ ss, ∀ {labels : List Label}, Nested labels →
      labels.length + s.nesting ≤ UInt32.size → straysIn labels s.strayExits = [] →
      CodeType (stackContext m f) (labelTypes f labels) (stmtNodes m labels s) [] [])
    {labels : List Label} (nested : Nested labels)
    (deep : labels.length + Typed.nesting ss ≤ UInt32.size)
    (hexits : straysIn labels (Typed.strayExits ss) = []) :
    CodeType (stackContext m f) (labelTypes f labels) (bodyNodes m labels ss) [] [] := by
  induction ss with
  | nil => exact .nil _ []
  | cons s ss ih =>
    rw [Typed.nesting] at deep
    rw [Typed.strayExits, straysIn_append] at hexits
    obtain ⟨hs, hss⟩ := List.append_eq_nil_iff.mp hexits
    have hfirst := h s (by simp) nested (by omega) hs
    exact hfirst.append (ih (fun s' hs' => h s' (by simp [hs'])) (by omega) hss)

/-- The code of a statement without stray exits leaves the stack as it was. -/
theorem stmtNodes_typed (callees : m.imports.length + m.functions.length ≤ UInt32.size) {s : Stmt}
    (h : s.WellTyped m.signatureOf f.slots f.signature.result) {labels : List Label}
    (nested : Nested labels) (deep : labels.length + s.nesting ≤ UInt32.size)
    (hexits : straysIn labels s.strayExits = []) :
    CodeType (stackContext m f) (labelTypes f labels) (stmtNodes m labels s) [] [] := by
  induction h generalizing labels with
  | @assign slot e n _ he te declared =>
    have hvalue := exprNodes_typed callees he (labelTypes f labels)
    rw [te] at hvalue
    refine hvalue.append (PlainType.localSet ?_).code
    simp [stackContext, declared]
  | @perform e _ he =>
    have hvalue := exprNodes_typed callees he (labelTypes f labels)
    rw [stmtNodes]
    cases te : e.type with
    | void =>
      rw [te] at hvalue
      rw [if_pos rfl]
      exact hvalue.append (.nil _ [])
    | bool | value n =>
      rw [te] at hvalue
      rw [if_neg (by simp)]
      exact hvalue.append (PlainType.drop _).code
  | @branch e ss ss' _ he te _ _ hss hss' =>
    rw [Stmt.nesting] at deep
    rw [Stmt.strayExits, straysIn_append, ← straysIn_branch labels,
      ← straysIn_branch labels] at hexits
    obtain ⟨hthen, helse⟩ := List.append_eq_nil_iff.mp hexits
    have hcondition := exprNodes_typed callees he (labelTypes f labels)
    rw [te] at hcondition
    have hbody := bodyNodes_typed hss nested.branch
      (by simp only [List.length_cons]; omega) hthen
    have horElse := bodyNodes_typed hss' nested.branch
      (by simp only [List.length_cons]; omega) helse
    rw [labelTypes_cons] at hbody horElse
    cases ss' with
    | nil => exact hcondition.append ((NodeType.ifThen hbody).code [])
    | cons s' ss' => exact hcondition.append ((NodeType.ifElse hbody horElse).code [])
  | @whileDo e ss _ he te _ hss =>
    rw [Stmt.nesting] at deep
    have hcondition := exprNodes_typed callees he (labelTypes f (.loop :: .block :: labels))
    rw [te] at hcondition
    have hbody := bodyNodes_typed hss nested.loop
      (by simp only [List.length_cons]; omega) (straysIn_loop _ _)
    -- out of the loop goes past its block, round again goes to the loop itself
    have hleave : CodeType (stackContext m f) (labelTypes f (.loop :: .block :: labels))
        [.plain (.brIf 1)] ([] ++ [.i32]) [] := (PlainType.brIf rfl).code
    have hagain : CodeType (stackContext m f) (labelTypes f (.loop :: .block :: labels))
        [.plain (.br 0)] [] [] := (PlainType.br [] [] rfl).code
    have htest := hcondition.append (PlainType.i32Eqz.code.append hleave)
    have hround := (htest.append hbody).append hagain
    rw [labelTypes_cons, labelTypes_cons] at hround
    exact (NodeType.block ((NodeType.loop hround).code [])).code []
  | retNone declared =>
    have hresults : (stackContext m f).results = [] := by
      simp [stackContext, FuncType.ofSignature, declared]
    have hret : CodeType (stackContext m f) (labelTypes f labels) [.plain .ret]
        ([] ++ (stackContext m f).results) [] := (PlainType.ret [] []).code
    rwa [hresults] at hret
  | @ret e n _ declared he te =>
    have hvalue := exprNodes_typed callees he (labelTypes f labels)
    have hresults : (stackContext m f).results = e.type.valTypes := by
      simp [stackContext, FuncType.ofSignature, ExprType.valTypes, declared, te]
    have hret : CodeType (stackContext m f) (labelTypes f labels) [.plain .ret]
        ([] ++ (stackContext m f).results) [] := (PlainType.ret [] []).code
    rw [hresults] at hret
    exact hvalue.append hret
  | pass => exact .nil _ []
  | brk span => exact exitNodes_typed nested (by omega) (by omega) hexits
  | cont span => exact exitNodes_typed nested (by omega) (by omega) hexits

/-! ### Functions -/

/-- The code of a function without stray exits leaves its result. -/
theorem functionNodes_typed (fits : m.Indexable) (hf : f ∈ m.functions) (h : f.WellTyped m)
    (hexits : Typed.strayExits f.body = []) :
    CodeType (stackContext m f) [(stackContext m f).results] (functionNodes m f) []
      (stackContext m f).results := by
  have hbody := bodyNodes_typed
    (fun s hs _ => stmtNodes_typed fits.callees (h.body s hs)) .nil
    (by simpa using fits.labels f hf) hexits
  rw [functionNodes]
  cases hresult : f.signature.result with
  | none =>
    have hend : CodeType (stackContext m f) (labelTypes f []) [] []
        (stackContext m f).results := by
      simp only [stackContext, FuncType.ofSignature, hresult]
      exact .nil _ []
    exact hbody.append hend
  | some n => exact hbody.append (PlainType.unreachable [] _).code

/-- The operand-stack check accepts what lowering makes of a well-typed function. -/
theorem verify_generate (fits : m.Indexable) (hf : f ∈ m.functions) (h : f.WellTyped m)
    {body : List Instr} (hbody : generate m f = .ok body) : verify m f body = .ok () := by
  obtain ⟨hexits, rfl⟩ := generate_ok h hbody
  exact verify_ok.mpr (Wasm.checkBody_of_codeType (functionNodes_typed fits hf h hexits))

/-! ### Modules -/

theorem addFunctions_ok (h : ∀ f ∈ fs, f.WellTyped m)
    (hverify : ∀ f ∈ fs, ∀ body, generate m f = .ok body → verify m f body = .ok ())
    (hexits : fs.flatMap (fun f => Typed.strayExits f.body) = []) (w : Wasm.Module) :
    ∃ w', (addFunctions m w fs).2 = .ok w' := by
  induction fs generalizing w with
  | nil => exact ⟨w, rfl⟩
  | cons f fs ih =>
    rw [List.flatMap_cons] at hexits
    obtain ⟨hf, hfs⟩ := List.append_eq_nil_iff.mp hexits
    have hbody := generate_of_no_strayExits (h f (by simp)) hf
    rw [addFunctions, hbody]
    simp only [hverify f (by simp) _ hbody]
    exact ih (fun g hg => h g (by simp [hg])) (fun g hg => hverify g (by simp [hg])) hfs _

theorem addFunctions_error (h : ∀ f ∈ fs, f.WellTyped m)
    (hverify : ∀ f ∈ fs, ∀ body, generate m f = .ok body → verify m f body = .ok ())
    {e : Exit} {exits : List Exit}
    (hexits : fs.flatMap (fun f => Typed.strayExits f.body) = e :: exits) (w : Wasm.Module) :
    (addFunctions m w fs).2 = .error e.diagnostic := by
  induction fs generalizing w with
  | nil => cases hexits
  | cons f fs ih =>
    rw [List.flatMap_cons] at hexits
    cases hf : Typed.strayExits f.body with
    | nil =>
      rw [hf] at hexits
      have hbody := generate_of_no_strayExits (h f (by simp)) hf
      rw [addFunctions, hbody]
      simp only [hverify f (by simp) _ hbody]
      exact ih (fun g hg => h g (by simp [hg])) (fun g hg => hverify g (by simp [hg])) hexits _
    | cons e' exits' =>
      rw [hf] at hexits
      obtain ⟨rfl, -⟩ := List.cons_eq_cons.mp hexits
      rw [addFunctions, generate_of_strayExit (h f (by simp)) hf]

/-- A program that was checked is lowered exactly if each `break` and `continue` of it
    stands in a loop.  If not, the first that does not is what lowering reports, and the
    operand-stack check has nothing to refuse. -/
theorem lowerModule_ok_iff {p : Surface.Program} (h : Typed.Module.ofProgram p = .ok m)
    (fits : m.Indexable) :
    ((∃ w, (lowerModule m).2 = .ok w) ↔ p.strayExits = []) ∧
      (∀ why, (lowerModule m).2 = .error why ↔
        ∃ e exits, p.strayExits = e :: exits ∧
          why = ⟨.breakOutsideLoop e.keyword, e.position⟩) ∧
      ∀ f ∈ m.functions, ∀ body, generate m f = .ok body → verify m f body = .ok () := by
  have htyped := Typed.Module.wellTyped_of_ofProgram h fits.slots
  have hverify : ∀ f ∈ m.functions, ∀ body, generate m f = .ok body → verify m f body = .ok () :=
    fun f hf body hbody => verify_generate fits hf (htyped f hf) hbody
  have hexits := (Typed.Module.ofProgram_ok h).strayExits
  have hlower : (lowerModule m).2 =
      (addFunctions m (addImports .empty m.imports) m.functions).2 := rfl
  refine ⟨?_, ?_, hverify⟩
  all_goals
    rw [hlower]
    cases hp : p.strayExits with
    | nil =>
      obtain ⟨w, hw⟩ := addFunctions_ok htyped hverify (hexits.trans hp)
        (addImports .empty m.imports)
      simp [hw]
    | cons e exits =>
      have he := addFunctions_error htyped hverify (hexits.trans hp)
        (addImports .empty m.imports)
      simp [he, Exit.diagnostic, eq_comm]

/-- A `break` inside a loop and, behind the loop, a `continue`:

        def f(x: int):
            while x < 10:
                if x == 5:
                    break
                x = x + 1
            continue
-/
def strayContinue : Surface.Program where
  imports := []
  functions :=
    [{ name := "f"
       params := [⟨"x", ⟨"int", .nowhere⟩, .nowhere⟩]
       result := none
       body :=
         ⟨[.whileDo (.compare .lt (.symbol "x" .nowhere) (.number 10 .nowhere) .nowhere)
             ⟨[.ifThen (.compare .eq (.symbol "x" .nowhere) (.number 5 .nowhere) .nowhere)
                 ⟨[.brk .nowhere], .nowhere⟩ .nowhere,
               .assign "x" (.binary .add (.symbol "x" .nowhere) (.number 1 .nowhere) .nowhere)
                 .nowhere], .nowhere⟩ .nowhere,
           .cont ⟨⟨94, 6, 5⟩, ⟨102, 6, 13⟩⟩], .nowhere⟩
       span := .nowhere }]

theorem lowerModule_strayContinue :
    ∃ m, Typed.Module.ofProgram strayContinue = .ok m ∧ m.Indexable ∧
      (¬ ∃ w, (lowerModule m).2 = .ok w) ∧
      (lowerModule m).2 = .error ⟨.breakOutsideLoop "continue", ⟨94, 6, 5⟩⟩ ∧
      ∀ f ∈ m.functions, ∀ body, generate m f = .ok body → verify m f body = .ok () := by
  refine ⟨_, rfl, ⟨by decide, by decide, by decide⟩, ?_⟩
  obtain ⟨hok, herror, hverify⟩ :=
    lowerModule_ok_iff (p := strayContinue) rfl ⟨by decide, by decide, by decide⟩
  refine ⟨fun hw => ?_, (herror _).mpr ⟨_, _, rfl, rfl⟩, hverify⟩
  cases hok.mp hw

end Offside
