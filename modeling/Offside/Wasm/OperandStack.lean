/-
  Offside/Wasm/OperandStack.lean
  ==============================
  **The operand-stack rules.**  A function body is walked once with the types of the values
  on the stack and one frame for each construct that is open.  A frame remembers how high
  the stack was when it was opened: what lies below is out of reach until it ends.  Behind
  `br`, `return` and `unreachable` nothing is executed, and the frame then supplies values
  of any type.

  All constructs have the empty block type, so only a branch to the function's own frame
  carries values.
-/
import Offside.Wasm.Module

namespace Offside.Wasm

/-- A breach of the operand-stack rules. -/
inductive StackFault where
  | noFrame
  | underflow
  | emptyStack (expected : Option ValType)
  | wrongType (expected found : ValType)
  | leftInBlock (count : Nat)
  | leftInFunction (count : Nat)
  | openBlocks (count : Nat)
  | branchDepth (depth : Nat)
  | unknownFunction (index : Nat)
  | unknownLocal (slot : Nat)
  | strayElse
  | strayEnd
deriving DecidableEq, Repr

def StackFault.message : StackFault → String
  | noFrame => "no open control frame"
  | underflow => "stack underflow"
  | emptyStack (some t) => "expected " ++ t.name ++ " but the stack is empty"
  | emptyStack none => "expected a value but the stack is empty"
  | wrongType expected found => "expected " ++ expected.name ++ " but found " ++ found.name
  | leftInBlock count => s!"{count} values left on the stack at the end of a block"
  | leftInFunction count => s!"{count} values left on the stack at the end of the function"
  | openBlocks count => s!"{count} blocks left open at the end of the function"
  | branchDepth depth => s!"branch depth {depth} out of range"
  | unknownFunction index => s!"call to unknown function {index}"
  | unknownLocal slot => s!"unknown local {slot}"
  | strayElse => "`else` without a matching `if`"
  | strayEnd => "`end` without an open block"

/-- The kinds of open construct. -/
inductive FrameKind where
  | function | block | loop | ifThen | elseThen
deriving DecidableEq, Repr

/-- An open construct. -/
structure Frame where
  kind : FrameKind
  /-- The height of the stack below the construct. -/
  height : Nat
  /-- The rest of the construct is not executed. -/
  unreachable : Bool
deriving DecidableEq, Repr

/-- What a body may refer to. -/
structure StackContext where
  /-- The types of the parameters and the locals. -/
  slots : List ValType
  results : List ValType
  /-- The types of the imports, which have the first function indices. -/
  imports : List FuncType
  /-- The types of the functions, which have the indices behind them. -/
  functions : List FuncType
deriving DecidableEq, Repr

/-- The type of the import or function with a function index. -/
def StackContext.callee? (c : StackContext) (index : Nat) : Option FuncType :=
  if index < c.imports.length then c.imports[index]?
  else c.functions[index - c.imports.length]?

/-- The function indices count the imports and then the functions. -/
theorem StackContext.callee?_eq (c : StackContext) (index : Nat) :
    c.callee? index = (c.imports ++ c.functions)[index]? :=
  List.getElem?_append.symm

/-- The stack, its top first, and the open frames, the innermost first. -/
structure StackState where
  stack : List ValType
  frames : List Frame
deriving DecidableEq, Repr

namespace StackState

/-- The state in which a body begins. -/
def start : StackState := ⟨[], [⟨.function, 0, false⟩]⟩

/-- The innermost frame. -/
def frame (s : StackState) : Except StackFault Frame :=
  match s.frames with
  | f :: _ => .ok f
  | [] => .error .noFrame

def push (s : StackState) (t : ValType) : StackState := { s with stack := t :: s.stack }

/-- Pushes types, the last of which ends on top. -/
def pushAll (s : StackState) (ts : List ValType) : StackState :=
  { s with stack := ts.reverse ++ s.stack }

/-- Takes one value, of the expected type if one is given. -/
def pop (s : StackState) (expected : Option ValType) : Except StackFault StackState := do
  let f ← s.frame
  if s.stack.length = f.height then
    if f.unreachable then return s else throw (.emptyStack expected)
  else
    match s.stack with
    | [] => throw .underflow
    | found :: below =>
      match expected with
      | none => return { s with stack := below }
      | some t =>
        if t = found then return { s with stack := below } else throw (.wrongType t found)

/-- Takes values of the given types, the first of which is on top. -/
def popTopFirst (s : StackState) : List ValType → Except StackFault StackState
  | [] => .ok s
  | t :: ts => do
    let s' ← s.pop (some t)
    s'.popTopFirst ts

/-- Takes values of the given types, the last of which is on top. -/
def popAll (s : StackState) (ts : List ValType) : Except StackFault StackState :=
  s.popTopFirst ts.reverse

/-- Goes on where nothing is executed until the innermost frame ends. -/
def setUnreachable (s : StackState) : Except StackFault StackState :=
  match s.frames with
  | [] => .error .noFrame
  | f :: fs =>
    .ok ⟨s.stack.drop (s.stack.length - f.height), { f with unreachable := true } :: fs⟩

/-- Opens a construct. -/
def openFrame (s : StackState) (kind : FrameKind) : StackState :=
  { s with frames := ⟨kind, s.stack.length, false⟩ :: s.frames }

/-- Requires that the innermost frame has left nothing on the stack. -/
def requireEmpty (s : StackState) : Except StackFault Unit := do
  let f ← s.frame
  if s.stack.length = f.height then return ()
  else throw (.leftInBlock (s.stack.length - f.height))

/-- The types that a branch to the given depth carries. -/
def labelTypes (c : StackContext) (s : StackState) (depth : Nat) :
    Except StackFault (List ValType) :=
  match s.frames[depth]? with
  | none => .error (.branchDepth depth)
  | some f => .ok (if f.kind = .function then c.results else [])

/-- Takes two values of one type and pushes a result. -/
def binary (s : StackState) (operands result : ValType) : Except StackFault StackState := do
  let s₁ ← s.pop (some operands)
  let s₂ ← s₁.pop (some operands)
  return s₂.push result

/-- Takes a value and pushes a result. -/
def unary (s : StackState) (operand result : ValType) : Except StackFault StackState := do
  let s' ← s.pop (some operand)
  return s'.push result

/-- Goes from the first branch of an `if` to the second. -/
def toElse (s : StackState) : Except StackFault StackState := do
  let f ← s.frame
  if f.kind = .ifThen then
    s.requireEmpty
    return { s with frames := ⟨.elseThen, f.height, false⟩ :: s.frames.drop 1 }
  else throw .strayElse

/-- Closes the innermost construct. -/
def close (s : StackState) : Except StackFault StackState := do
  let f ← s.frame
  if f.kind = .function then throw .strayEnd
  else
    s.requireEmpty
    return { s with frames := s.frames.drop 1 }

/-- The type of a slot. -/
def slotType (c : StackContext) (slot : UInt32) : Except StackFault ValType :=
  match c.slots[slot.toNat]? with
  | some t => .ok t
  | none => .error (.unknownLocal slot.toNat)

/-- The type of a callee. -/
def functionType (c : StackContext) (index : UInt32) : Except StackFault FuncType :=
  match c.callee? index.toNat with
  | some t => .ok t
  | none => .error (.unknownFunction index.toNat)

/-- The state after an instruction. -/
def step (c : StackContext) (s : StackState) : Instr → Except StackFault StackState
  | .unreachable => s.setUnreachable
  | .block => .ok (s.openFrame .block)
  | .loop => .ok (s.openFrame .loop)
  | .ifThen => do
    let s' ← s.pop (some .i32)
    return s'.openFrame .ifThen
  | .elseThen => s.toElse
  | .endBlock => s.close
  | .br depth => do
    let ts ← s.labelTypes c depth.toNat
    let s' ← s.popAll ts
    s'.setUnreachable
  | .brIf depth => do
    let s₁ ← s.pop (some .i32)
    let ts ← s₁.labelTypes c depth.toNat
    let s₂ ← s₁.popAll ts
    return s₂.pushAll ts
  | .ret => do
    let s' ← s.popAll c.results
    s'.setUnreachable
  | .call index => do
    let t ← functionType c index
    let s' ← s.popAll t.params
    return s'.pushAll t.results
  | .drop => s.pop none
  | .localGet slot => do
    let t ← slotType c slot
    return s.push t
  | .localSet slot => do
    let t ← slotType c slot
    s.pop (some t)
  | .i32Const _ => .ok (s.push .i32)
  | .f64Const _ => .ok (s.push .f64)
  | .i32Eqz => s.unary .i32 .i32
  | .f64Neg => s.unary .f64 .f64
  | .compare t _ => s.binary t .i32
  | .arith t _ => s.binary t t
  | .logic _ => s.binary .i32 .i32

/-- The state after instructions. -/
def run (c : StackContext) (s : StackState) : List Instr → Except StackFault StackState
  | [] => .ok s
  | i :: is => do
    let s' ← s.step c i
    s'.run c is

/-- Requires that the body ends with its results on the stack and nothing else. -/
def finish (c : StackContext) (s : StackState) : Except StackFault Unit := do
  if s.frames.length = 1 then
    let s' ← s.popAll c.results
    if s'.stack = [] then return () else throw (.leftInFunction s'.stack.length)
  else throw (.openBlocks (s.frames.length - 1))

end StackState

/-- Checks a body against the operand-stack rules. -/
def checkBody (c : StackContext) (body : List Instr) : Except StackFault Unit := do
  let s ← StackState.start.run c body
  s.finish c

end Offside.Wasm
