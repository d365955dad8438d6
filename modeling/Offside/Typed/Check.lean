/-
  Offside/Typed/Check.lean
  ========================
  **Checking types.**  The checker walks the surface tree in the order in which it is
  written and builds the typed tree.  It carries the callables, the scope of the function
  it is in, and the log; what it has learnt stays when a later part is refused.

  All signatures are collected before any body is looked at, so that functions may call
  each other in any order.  An import without a signature gets one from its first call.
-/
import Offside.Typed.Scope

namespace Offside.Typed

/-- What the checker knows. -/
structure CheckState where
  callables : Callables
  scope : Scope
  log : List LogRecord
deriving DecidableEq, Repr

/-- A check, which may refuse; what it has learnt by then is kept. -/
abbrev Check := EStateM Diagnostic CheckState

/-- Refuses for `cause` at `position`. -/
def refuse {α : Type} (cause : Cause) (position : Position) : Check α :=
  throw ⟨cause, position⟩

/-- Adds a record to the log. -/
def note (message : String) : Check Unit :=
  modify fun s => { s with log := s.log ++ [LogRecord.debug message] }

/-- Goes on with what a part without state gives. -/
def ofExcept {α : Type} : Except Diagnostic α → Check α
  | .ok a => pure a
  | .error d => throw d

/-! ### Requirements on types -/

/-- The type that an annotation names. -/
def resolve (a : Surface.TypeExpr) : Except Diagnostic NumType :=
  match NumType.ofName? a.name with
  | some t => .ok t
  | none => .error ⟨.unknownType a.name, a.span.start⟩

/-- The types that annotations name. -/
def resolveAll : List Surface.TypeExpr → Except Diagnostic (List NumType)
  | [] => .ok []
  | a :: as => do
    let t ← resolve a
    let ts ← resolveAll as
    return t :: ts

/-- The result type that an annotation names, if there is one. -/
def resolveResult : Option Surface.TypeExpr → Except Diagnostic (Option NumType)
  | none => .ok none
  | some a => do
    let t ← resolve a
    return some t

/-- The signature that annotations name. -/
def resolveSignature (params : List Surface.TypeExpr) (result : Option Surface.TypeExpr) :
    Except Diagnostic Signature := do
  let ts ← resolveAll params
  let r ← resolveResult result
  return ⟨ts, r⟩

/-- The number type of an expression, which must have one. -/
def requireValue (e : Expr) : Except Diagnostic NumType :=
  match e.type with
  | .value t => .ok t
  | other => .error ⟨.expectedValue other.name, e.span.start⟩

/-- The number types of expressions. -/
def requireValues : List Expr → Except Diagnostic (List NumType)
  | [] => .ok []
  | e :: es => do
    let t ← requireValue e
    let ts ← requireValues es
    return t :: ts

/-- Requires a truth value. -/
def requireBool (e : Expr) : Except Diagnostic Unit :=
  match e.type with
  | .bool => .ok ()
  | other => .error ⟨.conditionType other.name, e.span.start⟩

/-- Requires a number of the given type. -/
def requireType (expected : NumType) (e : Expr) : Except Diagnostic Unit := do
  let received ← requireValue e
  if received = expected then return ()
  else throw ⟨.typeMatch expected.name received.name, e.span.start⟩

/-- Requires arguments of the given types, one for each. -/
def requireArguments : List NumType → List Expr → Except Diagnostic Unit
  | expected :: ts, e :: es => do
    let received ← requireValue e
    if received = expected then requireArguments ts es
    else throw ⟨.argumentTypeMatch expected.name received.name, e.span.start⟩
  | _, _ => .ok ()

/-- Requires as many arguments as there are parameters. -/
def requireCount (expected received : Nat) (position : Position) : Except Diagnostic Unit :=
  if expected < received then .error ⟨.unexpectedArguments expected received, position⟩
  else if received < expected then .error ⟨.missingArguments expected received, position⟩
  else .ok ()

/-! ### Expressions -/

/-- Fixes the signature of a pending import from the arguments of its first call. -/
def settlePending (callee : Callee) (arguments : List Expr) : Check Unit := do
  match (← get).callables.pending? callee with
  | none => return ()
  | some (index, i) =>
    let params ← ofExcept (requireValues arguments)
    let signature : Signature := ⟨params, none⟩
    modify fun s => { s with callables := s.callables.settle index signature }
    note ("Inferred signature " ++ signature.text ++ " for import " ++ i.module ++ "." ++ i.name)

/-- The typed call of `callee` with checked arguments. -/
def checkCall (callee : Callee) (arguments : List Expr) (span : Span) : Check Expr := do
  settlePending callee arguments
  let signature := (← get).callables.signature callee
  ofExcept (requireCount signature.params.length arguments.length span.start)
  ofExcept (requireArguments signature.params arguments)
  return .call callee arguments (ExprType.ofResult signature.result) span

mutual

/-- Checks an expression. -/
def checkExpr : Surface.Expr → Check Expr
  | .number value span => return .int value (.value .int) span
  | .float value span => return .float value (.value .float) span
  | .char value span => return .int (Int32.ofInt value.toNat) (.value .int) span
  | .symbol name span => do
    match (← get).scope.find? name with
    | some v => return .slot v.slot (.value v.type) span
    | none => refuse (.variableNotDeclared name) span.start
  | .binary op left right span => do
    let l ← checkExpr left
    let r ← checkExpr right
    let t ← ofExcept (requireValue l)
    ofExcept (requireType t r)
    return .binary op l r (.value t) span
  | .compare op left right span => do
    let l ← checkExpr left
    let r ← checkExpr right
    let t ← ofExcept (requireValue l)
    ofExcept (requireType t r)
    return .compare op t l r .bool span
  | .logic op left right span => do
    let l ← checkExpr left
    let r ← checkExpr right
    ofExcept (requireBool l)
    ofExcept (requireBool r)
    return .logic op l r .bool span
  | .negate operand span => do
    let e ← checkExpr operand
    let t ← ofExcept (requireValue e)
    return .negate e (.value t) span
  | .call name arguments span => do
    match (← get).callables.find? name with
    | none => refuse (.variableNotDeclared name) span.start
    | some callee =>
      let args ← checkExprs arguments
      checkCall callee args span

/-- Checks expressions from left to right. -/
def checkExprs : List Surface.Expr → Check (List Expr)
  | [] => return []
  | e :: es => do
    let t ← checkExpr e
    let ts ← checkExprs es
    return t :: ts

end

/-! ### Statements -/

/-- The slot that a value of type `type` at `position` is assigned to under `name`. -/
def assignSlot (name : String) (type : NumType) (position : Position) : Check UInt32 := do
  let scope := (← get).scope
  match scope.find? name with
  | some v =>
    if v.type = type then return v.slot
    else refuse (.typeMatch v.type.name type.name) position
  | none =>
    modify fun s => { s with scope := s.scope.declareLocal name type }
    return scope.nextLocal

/-- Checks a condition. -/
def checkCondition (e : Surface.Expr) : Check Expr := do
  let t ← checkExpr e
  ofExcept (requireBool t)
  return t

/-- Checks the value of a `return` against the declared result. -/
def checkReturn (value : Option Surface.Expr) (span : Span) : Check (Option Expr) := do
  let scope := (← get).scope
  match value, scope.result with
  | none, none => return none
  | none, some expected =>
    refuse (.expectedReturnValue scope.function expected.name) span.start
  | some e, none => refuse (.unexpectedReturnValue scope.function) e.span.start
  | some e, some expected =>
    let t ← checkExpr e
    ofExcept (requireType expected t)
    return some t

mutual

/-- Checks a statement. -/
def checkStmt : Surface.Stmt → Check Stmt
  | .assign target value span => do
    let e ← checkExpr value
    let t ← ofExcept (requireValue e)
    let slot ← assignSlot target t e.span.start
    return .assign slot e span
  | .perform call span => do
    let e ← checkExpr call
    return .perform e span
  | .ifThen condition body span => do
    let e ← checkCondition condition
    let thenBody ← checkBlock body
    return .branch e thenBody [] span
  | .ifElse condition body orElse span => do
    let e ← checkCondition condition
    let thenBody ← checkBlock body
    let elseBody ← checkBlock orElse
    return .branch e thenBody elseBody span
  | .whileDo condition body span => do
    let e ← checkCondition condition
    let b ← checkBlock body
    return .whileDo e b span
  | .ret value span => do
    let e ← checkReturn value span
    return .ret e span
  | .pass _ => return .pass
  | .brk span => return .brk span
  | .cont span => return .cont span

/-- Checks the statements of a block. -/
def checkBlock : Surface.Block Surface.Stmt → Check (List Stmt)
  | ⟨body, _⟩ => checkStmts body

/-- Checks statements in order. -/
def checkStmts : List Surface.Stmt → Check (List Stmt)
  | [] => return []
  | s :: ss => do
    let t ← checkStmt s
    let ts ← checkStmts ss
    return t :: ts

end

/-! ### Functions and programs -/

/-- The scope of a function with its parameters. -/
def paramScope (scope : Scope) : List (Surface.Parameter × NumType) → Except Diagnostic Scope
  | [] => .ok scope
  | (p, t) :: more => do
    let s ← scope.declareParam p.name t p.span.start
    paramScope s more

/-- Checks the body of a function against its signature. -/
def checkFunction (f : Surface.Function) (signature : Signature) : Check Function := do
  let scope ← ofExcept
    (paramScope (Scope.empty f.name signature.result) (f.params.zip signature.params))
  modify fun s => { s with scope := scope }
  let body ← checkBlock f.body
  if signature.result.isSome ∧ bodyReturns body = false then
    refuse (.missingReturn f.name) f.span.start
  else
    let locals := (← get).scope.locals
    note ("Checked function " ++ f.name ++ signature.text ++ " with " ++
      toString locals.length ++ " locals")
    return ⟨f.name, signature, locals, body, f.span⟩

/-- Checks functions in order, each with its signature. -/
def checkFunctions : List (Surface.Function × Signature) → Check (List Function)
  | [] => return []
  | (f, signature) :: more => do
    let t ← checkFunction f signature
    let ts ← checkFunctions more
    return t :: ts

/-- Enters the name of a callable, which must be new. -/
def declareName (t : Callables) (name : String) (callee : Callee) (position : Position) :
    Except Diagnostic Callables :=
  if name = Surface.ordName ∨ (t.find? name).isSome then
    .error ⟨.functionAlreadyDeclared name, position⟩
  else .ok (t.enter name callee)

/-- An import with its signature, or pending if none is written. -/
def declareImport (i : Surface.Import) : Except Diagnostic PendingImport :=
  match i.signature with
  | none => .ok ⟨⟨i.module, i.name, Signature.empty, i.span⟩, true⟩
  | some s => do
    let signature ← resolveSignature s.params s.result
    return ⟨⟨i.module, i.name, signature, i.span⟩, false⟩

/-- Declares imports in order. -/
def declareImports (t : Callables) : List Surface.Import → Except Diagnostic Callables
  | [] => .ok t
  | i :: more => do
    let named ← declareName t i.name (.imported t.imports.length) i.span.start
    let p ← declareImport i
    declareImports (named.addImport p) more

/-- Declares functions in order. -/
def declareFunctions (t : Callables) : List Surface.Function → Except Diagnostic Callables
  | [] => .ok t
  | f :: more => do
    let named ← declareName t f.name (.defined t.signatures.length) f.span.start
    let signature ← resolveSignature (f.params.map (·.type)) f.result
    declareFunctions (named.addFunction signature) more

/-- The callables of a program before any body is checked. -/
def Callables.ofProgram (p : Surface.Program) : Except Diagnostic Callables := do
  let imports ← declareImports Callables.empty p.imports
  declareFunctions imports p.functions

/-- Checks a program. -/
def checkProgram (p : Surface.Program) : Check Module := do
  let callables ← ofExcept (Callables.ofProgram p)
  modify fun s => { s with callables := callables }
  let functions ← checkFunctions (p.functions.zip callables.signatures)
  return ⟨(← get).callables.imports.map (·.declared), functions⟩

/-- What the checker knows before it begins. -/
def CheckState.start : CheckState := ⟨Callables.empty, Scope.empty "" none, []⟩

/-- The log of checking a program, and its typed form or why it is refused. -/
def Module.check (p : Surface.Program) : List LogRecord × Except Diagnostic Module :=
  match checkProgram p CheckState.start with
  | .ok m s => (s.log, .ok m)
  | .error d s => (s.log, .error d)

/-- The typed form of a program. -/
def Module.ofProgram (p : Surface.Program) : Except Diagnostic Module := (Module.check p).2

end Offside.Typed
