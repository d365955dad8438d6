/-
  Offside/Lowering.lean
  =====================
  **From typed functions to instructions.**  An expression leaves its value on the operand
  stack, a truth value as zero or one.  A loop is a `loop` inside a `block`: `continue`
  branches to the one and `break` to the other, both by the number of constructs in
  between.

  A `Lowering` is the code of a construct.  Lowering may have to stop, and then the code
  that was made so far is kept together with the labels that are still open.
-/
import Offside.Diagnostic
import Offside.Typed
import Offside.Wasm.OperandStack

namespace Offside

open Wasm (Instr ValType FuncType)

/-- A construct that is open around the code in hand. -/
inductive Label where
  /-- The `block` around a loop, where `break` goes. -/
  | block
  /-- The `loop` of a loop, where `continue` goes. -/
  | loop
  | branch
deriving DecidableEq, Repr

/-- The instruction that opens a construct. -/
def Label.opening : Label → Instr
  | block => .block
  | loop => .loop
  | branch => .ifThen

/-- The code of a construct and, if it is not complete, why not and the labels that are
    open at its end, the innermost first. -/
structure Lowering where
  code : List Instr
  stop : Option (Diagnostic × List Label)

namespace Lowering

/-- Complete code. -/
def emit (code : List Instr) : Lowering := ⟨code, none⟩

/-- No code at all. -/
def refuse (cause : Cause) (position : Position) (labels : List Label) : Lowering :=
  ⟨[], some (⟨cause, position⟩, labels)⟩

/-- One code after the other, unless the first is not complete. -/
def append (a b : Lowering) : Lowering :=
  match a.stop with
  | some _ => a
  | none => ⟨a.code ++ b.code, b.stop⟩

instance : Append Lowering := ⟨append⟩

/-- Code inside a construct. -/
def enclose (label : Label) (inner : Lowering) : Lowering :=
  emit [label.opening] ++ inner ++ emit [.endBlock]

/-- The code, if it is complete. -/
def result (l : Lowering) : Except Diagnostic (List Instr) :=
  match l.stop with
  | none => .ok l.code
  | some (why, _) => .error why

end Lowering

/-! ### Branches -/

/-- How many constructs lie between the code in hand and the loop it is in. -/
def loopDepth? (labels : List Label) : Option Nat := labels.idxOf? .loop

/-- The depth that `continue` branches to. -/
def continueDepth (labels : List Label) (keyword : String) (span : Span) :
    Except Diagnostic UInt32 :=
  match loopDepth? labels with
  | some depth => .ok (UInt32.ofNat depth)
  | none => .error ⟨.breakOutsideLoop keyword, span.start⟩

/-- The depth that `break` branches to: the block lies directly outside its loop. -/
def breakDepth (labels : List Label) (keyword : String) (span : Span) :
    Except Diagnostic UInt32 :=
  match loopDepth? labels with
  | some depth => .ok (UInt32.ofNat (depth + 1))
  | none => .error ⟨.breakOutsideLoop keyword, span.start⟩

/-- The branch to a depth, if there is one. -/
def lowerBranch (labels : List Label) : Except Diagnostic UInt32 → Lowering
  | .ok depth => .emit [.br depth]
  | .error why => ⟨[], some (why, labels)⟩

/-! ### Expressions -/

/-- The function index of a callee. -/
def functionIndex (m : Typed.Module) (callee : Typed.Callee) : UInt32 :=
  UInt32.ofNat (m.indexOf callee)

/-- Why there is no arithmetic on values of the given type. -/
def noArithmetic (t : ExprType) : Cause :=
  .unsupportedConstruct ("arithmetic on a `" ++ t.name ++ "` value")

mutual

/-- The code of an expression. -/
def lowerExpr (m : Typed.Module) (labels : List Label) : Typed.Expr → Lowering
  | .int value _ _ => .emit [.i32Const value]
  | .float value _ _ => .emit [.f64Const value]
  | .slot slot _ _ => .emit [.localGet slot]
  | .binary op left right type span =>
    match type with
    | .value t =>
      lowerExpr m labels left ++ lowerExpr m labels right ++
        .emit [.arith (ValType.ofNumType t) op]
    | other => .refuse (noArithmetic other) span.start labels
  | .negate operand type span =>
    match type with
    | .value .int =>
      .emit [.i32Const 0] ++ lowerExpr m labels operand ++ .emit [.arith .i32 .sub]
    | .value .float => lowerExpr m labels operand ++ .emit [.f64Neg]
    | other => .refuse (noArithmetic other) span.start labels
  | .compare op operands left right _ _ =>
    lowerExpr m labels left ++ lowerExpr m labels right ++
      .emit [.compare (ValType.ofNumType operands) op]
  | .logic op left right _ _ =>
    lowerExpr m labels left ++ lowerExpr m labels right ++ .emit [.logic op]
  | .call callee arguments _ _ =>
    lowerExprs m labels arguments ++ .emit [.call (functionIndex m callee)]

/-- The code of expressions, one after the other. -/
def lowerExprs (m : Typed.Module) (labels : List Label) : List Typed.Expr → Lowering
  | [] => .emit []
  | e :: es => lowerExpr m labels e ++ lowerExprs m labels es

end

/-! ### Statements -/

/-- What is done with the value of an expression that stands as a statement. -/
def dropValue (t : ExprType) : Lowering := if t = .void then .emit [] else .emit [.drop]

mutual

/-- The code of a statement inside the constructs `labels`. -/
def lowerStmt (m : Typed.Module) (labels : List Label) : Typed.Stmt → Lowering
  | .assign slot value _ => lowerExpr m labels value ++ .emit [.localSet slot]
  | .perform e _ => lowerExpr m labels e ++ dropValue e.type
  | .branch condition thenBody elseBody _ =>
    lowerExpr m labels condition ++
      .enclose .branch
        (lowerStmts m (.branch :: labels) thenBody ++
          lowerElse m (.branch :: labels) elseBody)
  | .whileDo condition body _ =>
    .enclose .block
      (.enclose .loop
        (lowerExpr m (.loop :: .block :: labels) condition ++ .emit [.i32Eqz, .brIf 1] ++
          lowerStmts m (.loop :: .block :: labels) body ++ .emit [.br 0]))
  | .ret none _ => .emit [.ret]
  | .ret (some value) _ => lowerExpr m labels value ++ .emit [.ret]
  | .pass => .emit []
  | .brk span => lowerBranch labels (breakDepth labels "break" span)
  | .cont span => lowerBranch labels (continueDepth labels "continue" span)

/-- The code of a second branch, which is left out if it is empty. -/
def lowerElse (m : Typed.Module) (labels : List Label) : List Typed.Stmt → Lowering
  | [] => .emit []
  | s :: ss => .emit [.elseThen] ++ (lowerStmt m labels s ++ lowerStmts m labels ss)

/-- The code of statements, one after the other. -/
def lowerStmts (m : Typed.Module) (labels : List Label) : List Typed.Stmt → Lowering
  | [] => .emit []
  | s :: ss => lowerStmt m labels s ++ lowerStmts m labels ss

end

/-! ### Functions and modules -/

/-- The code of a function, without the `end` that closes it.  A function with a result
    has returned before it comes to its end. -/
def lowerFunction (m : Typed.Module) (f : Typed.Function) : Lowering :=
  lowerStmts m [] f.body ++
    .emit (if f.signature.result.isSome then [.unreachable] else [])

/-- The body of a function. -/
def generate (m : Typed.Module) (f : Typed.Function) : Except Diagnostic (List Instr) :=
  (lowerFunction m f).result

/-- What the body of a function may refer to. -/
def stackContext (m : Typed.Module) (f : Typed.Function) : Wasm.StackContext where
  slots := f.slots.map ValType.ofNumType
  results := (FuncType.ofSignature f.signature).results
  imports := m.imports.map fun i => FuncType.ofSignature i.signature
  functions := m.functions.map fun f => FuncType.ofSignature f.signature

/-- Checks a body of a function against the operand-stack rules. -/
def verify (m : Typed.Module) (f : Typed.Function) (body : List Instr) :
    Except Diagnostic Unit :=
  match Wasm.checkBody (stackContext m f) body with
  | .ok () => .ok ()
  | .error fault => .error ⟨.stackMismatch f.name fault.message, f.span.start⟩

/-- Adds the imports of a module. -/
def addImports (w : Wasm.Module) : List Typed.Import → Wasm.Module
  | [] => w
  | i :: more =>
    addImports (w.addImport i.module i.name (FuncType.ofSignature i.signature)).2 more

/-- Adds a function and exports it under its name. -/
def addFunction (w : Wasm.Module) (f : Typed.Function) (body : List Instr) : Wasm.Module :=
  let (index, w') := w.addFunction (FuncType.ofSignature f.signature)
    (f.locals.map ValType.ofNumType) body
  w'.addExport f.name index

/-- The record of an import. -/
def importRecord (i : Typed.Import) : LogRecord :=
  .debug ("Import " ++ i.module ++ "." ++ i.name ++ " " ++ i.signature.text)

/-- The record of a function and its body. -/
def functionRecord (f : Typed.Function) (body : List Instr) : LogRecord :=
  .debug ("Function " ++ f.name ++ " " ++ f.signature.text ++ " with " ++
    toString body.length ++ " instructions")

/-- Adds functions in order, each with its checked body. -/
def addFunctions (m : Typed.Module) (w : Wasm.Module) :
    List Typed.Function → List LogRecord × Except Diagnostic Wasm.Module
  | [] => ([], .ok w)
  | f :: more =>
    match generate m f with
    | .error why => ([], .error why)
    | .ok body =>
      match verify m f body with
      | .error why => ([], .error why)
      | .ok () =>
        let (log, result) := addFunctions m (addFunction w f body) more
        (functionRecord f body :: log, result)

/-- The log of lowering a module, and the WebAssembly module or why there is none. -/
def lowerModule (m : Typed.Module) : List LogRecord × Except Diagnostic Wasm.Module :=
  let (log, result) := addFunctions m (addImports .empty m.imports) m.functions
  (m.imports.map importRecord ++ log, result)

/-! ### Lowering piece by piece -/

/-- Code that grows construct by construct. -/
structure Emitter where
  labels : List Label
  code : List Instr

namespace Emitter

def empty : Emitter := ⟨[], []⟩

def emit (e : Emitter) (i : Instr) : Emitter := { e with code := e.code ++ [i] }

/-- Opens a construct. -/
def openLabel (e : Emitter) (label : Label) : Emitter :=
  { e.emit label.opening with labels := label :: e.labels }

/-- Closes the innermost construct. -/
def close (e : Emitter) : Emitter := { e.emit .endBlock with labels := e.labels.drop 1 }

/-- Goes on with the code of a construct. -/
def add (e : Emitter) (l : Lowering) : Emitter :=
  { labels := (l.stop.map (·.2)).getD e.labels, code := e.code ++ l.code }

end Emitter
end Offside
