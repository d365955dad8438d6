/-
  Offside/Proofs/Surface/Walk.lean
  ================================
  **Reading with an index alone.**  The types of the readers say how many tokens are left, and
  that is why they end.  Here they are written once more without it.  A walk has an index into
  the tokens and starts over wherever the language asks for it, in a block, a list of arguments
  or behind an operator; nothing in it says that it gets on.  All it is told is how many calls
  may be inside one another, each turn of a loop being a call inside the one before.

  A walk for which that is too few gives nothing, and neither does one that asks for a token
  where there is none.  So a walk that gives something has come to an end and has stayed among
  its tokens.
-/
import Offside.Surface.Definition

namespace Offside.Surface

open Number

/-- A walk over tokens.  It has an index, and it gives a value or the reason why there is none.
    A walk that has too few calls, or that asks for a token that is not there, gives nothing. -/
abbrev Walk : Type → Type := ExceptT Diagnostic (StateT Nat Option)

namespace Walk

/-- What the walk gives if it starts at the index, and the index it has come to. -/
def runAt {α : Type} (x : Walk α) (i : Nat) : Option (Except Diagnostic α × Nat) :=
  StateT.run (ExceptT.run x) i

/-- The tokens with the end of the input, which is added if they lack it. -/
def closed (tokens : List Token) : List Token :=
  match tokens.getLast? with
  | none => [⟨.eof, "", Span.nowhere⟩]
  | some t => if t.kind = .eof then tokens else tokens ++ [⟨.eof, "", t.span.atEnd⟩]

variable (ts : List Token) (g : Grammar)

/-- There are no calls left. -/
def exhausted {α : Type} : Walk α := fun _ => none

/-! ### Single tokens -/

/-- The index behind a token.  No walk goes past the last token. -/
def next (i : Nat) : Nat := if i + 1 < ts.length then i + 1 else i

/-- The token at an index that is told from that of the walk. -/
def fetch (index : Nat → Nat) : Walk Token := fun i => ts[index i]?.map fun t => (.ok t, i)

/-- The token at the index. -/
def current : Walk Token := fetch ts id

/-- The kind of the token after that. -/
def peek : Walk Kind := do
  let t ← fetch ts fun i => min (i + 1) (ts.length - 1)
  pure t.kind

/-- Steps past the token at the index. -/
def advance : Walk Token := fun i => ts[i]?.map fun t => (.ok t, next ts i)

/-- Where the last token stepped past ends. -/
def previousEnd : Walk Position := do
  let i ← get
  if i = 0 then do
    let t ← current ts
    pure t.span.start
  else do
    let t ← fetch ts (· - 1)
    pure t.span.stop

/-- Refuses the token at the index. -/
def refuse {α : Type} (expected : Expected) : Walk α := do
  let t ← current ts
  throw ⟨.unexpectedTokenDetailed t.text expected.message, t.span.start⟩

def expectAs (kind : Kind) (expected : Expected) : Walk Token := do
  let t ← current ts
  if t.kind = kind then advance ts else refuse ts expected

def expect (kind : Kind) : Walk Token := expectAs ts kind (.kind kind)

def endOfLine : Walk Unit := do
  let t ← current ts
  if t.kind = .newline then do
    let _ ← advance ts
    pure ()
  else if t.kind = .eof ∨ t.kind = .dedent then pure ()
  else refuse ts .lineEnd

def separator (expected : Expected) : Walk Unit := do
  let t ← current ts
  if t.kind = .comma then do
    let _ ← advance ts
    pure ()
  else if t.kind = .closeParen then pure ()
  else refuse ts expected

/-! ### Expressions -/

def literal : Walk Expr := do
  let t ← current ts
  if t.kind = .integer then
    match integer? t.value with
    | some value => do
      let _ ← advance ts
      pure (.number value t.span)
    | none => throw (badNumber t.value t.span.start)
  else if t.kind = .float then
    match Binary64.ofText? t.value with
    | some value => do
      let _ ← advance ts
      pure (.float value t.span)
    | none => throw (badNumber t.value t.span.start)
  else if t.kind = .identifier then do
    let _ ← advance ts
    pure (.symbol t.value t.span)
  else refuse ts .literalOrName

def negatedInteger (minus : Span) : Walk Expr := do
  let t ← current ts
  match negatedMagnitude minus t with
  | .ok value => do
    let _ ← advance ts
    pure (.number (negated value) (minus.cover t.span))
  | .error why => throw why

mutual

def expr (n : Nat) (floor : Strength) : Walk Expr :=
  match n with
  | 0 => exhausted
  | n + 1 => do
    let t ← current ts
    match g.head t.kind with
    | none => refuse ts .expression
    | some head => do
      let left ← headed n head
      climb n floor left

def headed (n : Nat) (head : Head) : Walk Expr :=
  match n with
  | 0 => exhausted
  | n + 1 =>
    match head with
    | .literal => literal ts
    | .char => refuse ts .ordLiteral
    | .minus => do
      let minus ← advance ts
      let t ← current ts
      let k ← peek ts
      if t.kind = .integer ∧ k ≠ .openParen then negatedInteger ts minus.span
      else do
        let e ← expr n .unary
        pure (negation e (minus.span.cover e.span))
    | .group => do
      let _ ← advance ts
      let e ← expr n .lowest
      let _ ← expect ts .closeParen
      pure e

/-- Goes on for as long as the tokens bind tighter than `floor`. -/
def climb (n : Nat) (floor : Strength) (left : Expr) : Walk Expr :=
  match n with
  | 0 => exhausted
  | n + 1 => do
    let t ← current ts
    match g.tail t.kind with
    | none => pure left
    | some (strength, tail) =>
      if floor.rank < strength.rank then do
        let e ← tailed n tail strength left
        climb n floor e
      else pure left

def tailed (n : Nat) (tail : Tail) (strength : Strength) (left : Expr) : Walk Expr :=
  match n with
  | 0 => exhausted
  | n + 1 =>
    match tail with
    | .arithmetic => do
      let t ← advance ts
      match arithmeticOf? t.kind with
      | none => throw ⟨.unexpectedToken t.value, t.span.start⟩
      | some op => do
        let right ← expr n strength
        pure (.binary op left right (left.span.cover right.span))
    | .comparison => do
      let t ← advance ts
      match comparisonOf? t.kind with
      | none => throw ⟨.unexpectedToken t.value, t.span.start⟩
      | some op => do
        let right ← expr n strength
        let u ← current ts
        if (comparisonOf? u.kind).isSome then refuse ts .singleComparison
        else pure (.compare op left right (left.span.cover right.span))
    | .connective => do
      let t ← advance ts
      let right ← expr n strength
      pure (.logic (connectiveOf t.kind) left right (left.span.cover right.span))
    | .call =>
      match left with
      | .symbol callee span => called n callee span
      | _ => refuse ts .namedCallee

def called (n : Nat) (callee : String) (span : Span) : Walk Expr :=
  match n with
  | 0 => exhausted
  | n + 1 => do
    let _ ← advance ts
    let t ← current ts
    if callee = ordName ∧ t.kind = .char then do
      let _ ← advance ts
      let close ← expect ts .closeParen
      pure (.char (charOf t) (span.cover close.span))
    else do
      let args ← arguments n
      let close ← expect ts .closeParen
      pure (.call callee args (span.cover close.span))

/-- Goes on up to the closing parenthesis. -/
def arguments (n : Nat) : Walk (List Expr) :=
  match n with
  | 0 => exhausted
  | n + 1 => do
    let t ← current ts
    if t.kind = .closeParen then pure []
    else do
      let e ← expr n .lowest
      separator ts .argumentEnd
      let es ← arguments n
      pure (e :: es)

end

/-! ### Statements -/

def afterExpression (n : Nat) (e : Expr) : Walk Stmt := do
  let t ← current ts
  if t.kind = .assignment then
    match e with
    | .symbol target span => do
      let _ ← advance ts
      let value ← expr ts g n .lowest
      endOfLine ts
      pure (.assign target value (span.cover value.span))
    | _ => refuse ts .plainTarget
  else
    match e with
    | .call _ _ span => do
      endOfLine ts
      pure (.perform e span)
    | _ => refuse ts .assignmentOrCall

def assignmentOrCall (n : Nat) : Walk Stmt := do
  let e ← expr ts g n .lowest
  afterExpression ts g n e

def oneWord (make : Span → Stmt) : Walk Stmt := do
  let t ← advance ts
  endOfLine ts
  pure (make t.span)

def returnStmt (n : Nat) : Walk Stmt := do
  let t ← advance ts
  let u ← current ts
  if u.kind = .newline ∨ u.kind = .eof ∨ u.kind = .dedent then do
    let stop ← previousEnd ts
    endOfLine ts
    pure (.ret none ⟨t.span.start, stop⟩)
  else do
    let value ← expr ts g n .lowest
    let stop ← previousEnd ts
    endOfLine ts
    pure (.ret (some value) ⟨t.span.start, stop⟩)

mutual

def stmt (n : Nat) : Walk Stmt :=
  match n with
  | 0 => exhausted
  | n + 1 => do
    let t ← current ts
    match g.lead t.kind with
    | some lead => ledStmt n lead
    | none => assignmentOrCall ts g n

def ledStmt (n : Nat) (lead : Lead) : Walk Stmt :=
  match n with
  | 0 => exhausted
  | n + 1 =>
    match lead with
    | .ifLead => ifStmt n
    | .whileLead => whileStmt n
    | .returnLead => returnStmt ts g n
    | .passLead => oneWord ts .pass
    | .breakLead => oneWord ts .brk
    | .continueLead => oneWord ts .cont

def ifStmt (n : Nat) : Walk Stmt :=
  match n with
  | 0 => exhausted
  | n + 1 => do
    let t ← advance ts
    let condition ← expr ts g n .lowest
    let body ← block n
    otherwise n t.span.start condition body

def otherwise (n : Nat) (start : Position) (condition : Expr) (body : Block Stmt) : Walk Stmt :=
  match n with
  | 0 => exhausted
  | n + 1 => do
    let t ← current ts
    if t.kind = .elifWord then do
      let nested ← ifStmt n
      let stop ← previousEnd ts
      pure (.ifElse condition body ⟨[nested], nested.span⟩ ⟨start, stop⟩)
    else if t.kind = .elseWord then do
      let _ ← advance ts
      let orElse ← block n
      let stop ← previousEnd ts
      pure (.ifElse condition body orElse ⟨start, stop⟩)
    else do
      let stop ← previousEnd ts
      pure (.ifThen condition body ⟨start, stop⟩)

def whileStmt (n : Nat) : Walk Stmt :=
  match n with
  | 0 => exhausted
  | n + 1 => do
    let t ← advance ts
    let condition ← expr ts g n .lowest
    let body ← block n
    let stop ← previousEnd ts
    pure (.whileDo condition body ⟨t.span.start, stop⟩)

def block (n : Nat) : Walk (Block Stmt) :=
  match n with
  | 0 => exhausted
  | n + 1 => do
    let _ ← expect ts .colon
    let t ← current ts
    if t.kind = .newline then do
      let _ ← advance ts
      let _ ← expectAs ts .indent .indentedBlock
      let body ← stmts n
      let stop ← previousEnd ts
      let _ ← expect ts .dedent
      pure ⟨body, ⟨t.span.start, stop⟩⟩
    else if isCompound t.kind then refuse ts .simpleStatement
    else do
      let s ← stmt n
      pure ⟨[s], s.span⟩

/-- Goes on up to the end of the block. -/
def stmts (n : Nat) : Walk (List Stmt) :=
  match n with
  | 0 => exhausted
  | n + 1 => do
    let t ← current ts
    if t.kind = .dedent ∨ t.kind = .eof then pure []
    else do
      let s ← stmt n
      let ss ← stmts n
      pure (s :: ss)

end

/-! ### Imports and functions -/

def typeExpr : Walk TypeExpr := do
  let t ← current ts
  if g.type t.kind then
    if t.kind = .identifier then do
      let _ ← advance ts
      pure ⟨t.value, t.span⟩
    else refuse ts (.kind .identifier)
  else refuse ts .typeName

def resultType : Walk (Option TypeExpr) := do
  let t ← current ts
  if t.kind = .arrow then do
    let _ ← advance ts
    let type ← typeExpr ts g
    pure (some type)
  else pure none

/-- Goes on up to the closing parenthesis. -/
def importTypes (n : Nat) : Walk (List TypeExpr) :=
  match n with
  | 0 => exhausted
  | n + 1 => do
    let t ← current ts
    if t.kind = .closeParen then pure []
    else do
      let type ← typeExpr ts g
      separator ts .importSignatureEnd
      let more ← importTypes n
      pure (type :: more)

def importSignature (n : Nat) : Walk (Option ImportSignature) := do
  let t ← current ts
  if t.kind = .openParen then do
    let _ ← advance ts
    let params ← importTypes ts g n
    let _ ← expect ts .closeParen
    let result ← resultType ts g
    pure (some ⟨params, result⟩)
  else pure none

/-- Goes on for as long as there are commas. -/
def importedNames (n : Nat) (module : String) : Walk (List Import) :=
  match n with
  | 0 => exhausted
  | n + 1 => do
    let name ← expectAs ts .identifier .importName
    let signature ← importSignature ts g n
    let stop ← previousEnd ts
    let t ← current ts
    if t.kind = .comma then do
      let _ ← advance ts
      let more ← importedNames n module
      pure (⟨module, name.value, signature, ⟨name.span.start, stop⟩⟩ :: more)
    else pure [⟨module, name.value, signature, ⟨name.span.start, stop⟩⟩]

def importLine (n : Nat) : Walk (List Import) := do
  let _ ← expect ts .fromWord
  let module ← expectAs ts .identifier .moduleName
  let _ ← expect ts .importWord
  let imports ← importedNames ts g n module.value
  endOfLine ts
  pure imports

/-- Goes on up to the closing parenthesis. -/
def parameters (n : Nat) : Walk (List Parameter) :=
  match n with
  | 0 => exhausted
  | n + 1 => do
    let t ← current ts
    if t.kind = .closeParen then pure []
    else do
      let name ← expectAs ts .identifier .parameterName
      let _ ← expectAs ts .colon .parameterType
      let type ← typeExpr ts g
      separator ts .parameterEnd
      let more ← parameters n
      pure (⟨name.value, type, name.span.cover type.span⟩ :: more)

def functionDef (n : Nat) : Walk Function := do
  let opening ← expect ts .defWord
  let name ← expectAs ts .identifier .functionName
  let _ ← expect ts .openParen
  let params ← parameters ts g n
  let _ ← expect ts .closeParen
  let result ← resultType ts g
  let body ← block ts g n
  pure ⟨name.value, params, result, body, opening.span.cover body.span⟩

/-- Goes on up to the end of the input. -/
def items (n : Nat) : Walk (List Item) :=
  match n with
  | 0 => exhausted
  | n + 1 => do
    let t ← current ts
    if t.kind = .eof then pure []
    else if t.kind = .newline then do
      let _ ← advance ts
      items n
    else if t.kind = .fromWord then do
      let line ← importLine ts g n
      let more ← items n
      pure (.imports line :: more)
    else if t.kind = .defWord then do
      let definition ← functionDef ts g n
      let more ← items n
      pure (.function definition :: more)
    else refuse ts .importOrDefinition

/-- The program that the tokens say. -/
def program (n : Nat) : Walk Program := do
  let is ← items ts g n
  pure (Program.ofItems is)

end Walk
end Offside.Surface
