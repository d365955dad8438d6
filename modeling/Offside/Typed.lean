/-
  Offside/Typed.lean
  ==================
  **The typed tree.**  What the checker makes of a program: variables are slot numbers,
  calls name an import or a function by index, and every expression carries its type.
  Whoever goes on from here looks nothing up by name.
-/
import Offside.Number.Binary64
import Offside.Operator
import Offside.Position
import Offside.Signature

namespace Offside.Typed

open Number

/-- What a call calls: an import or a function of the module, by its index. -/
inductive Callee where
  | imported (index : Nat)
  | defined (index : Nat)
deriving DecidableEq, Repr

/-- An expression and its type. -/
inductive Expr where
  | int (value : Int32) (type : ExprType) (span : Span)
  | float (value : Binary64) (type : ExprType) (span : Span)
  | slot (slot : UInt32) (type : ExprType) (span : Span)
  | binary (op : BinaryOp) (left right : Expr) (type : ExprType) (span : Span)
  | negate (operand : Expr) (type : ExprType) (span : Span)
  | compare (op : CompareOp) (operands : NumType) (left right : Expr) (type : ExprType)
      (span : Span)
  | logic (op : BoolOp) (left right : Expr) (type : ExprType) (span : Span)
  | call (callee : Callee) (arguments : List Expr) (type : ExprType) (span : Span)

def Expr.type : Expr → ExprType
  | int _ t _ | float _ t _ | slot _ t _ | binary _ _ _ t _ | negate _ t _
  | compare _ _ _ _ t _ | logic _ _ _ t _ | call _ _ t _ => t

def Expr.span : Expr → Span
  | int _ _ s | float _ _ s | slot _ _ s | binary _ _ _ _ s | negate _ _ s
  | compare _ _ _ _ _ s | logic _ _ _ _ s | call _ _ _ s => s

/-- A statement.  A branch that is not written is empty. -/
inductive Stmt where
  | assign (slot : UInt32) (value : Expr) (span : Span)
  | perform (expression : Expr) (span : Span)
  | branch (condition : Expr) (thenBody elseBody : List Stmt) (span : Span)
  | whileDo (condition : Expr) (body : List Stmt) (span : Span)
  | ret (value : Option Expr) (span : Span)
  | pass
  | brk (span : Span)
  | cont (span : Span)

mutual

/-- Holds if every path through the statement ends in a `return`.  A loop never does:
    its body may not run at all. -/
def Stmt.alwaysReturns : Stmt → Bool
  | .ret _ _ => true
  | .branch _ thenBody elseBody _ => bodyReturns thenBody && bodyReturns elseBody
  | .assign _ _ _ | .perform _ _ | .whileDo _ _ _ | .pass | .brk _ | .cont _ => false

/-- Holds if some statement of the body always returns. -/
def bodyReturns : List Stmt → Bool
  | [] => false
  | s :: ss => s.alwaysReturns || bodyReturns ss

end

/-- An import with its signature. -/
structure Import where
  module : String
  name : String
  signature : Signature
  span : Span
deriving DecidableEq, Repr

/-- A function.  The slots of its variables are numbered from the parameters on. -/
structure Function where
  name : String
  signature : Signature
  /-- The types of the variables that are not parameters. -/
  locals : List NumType
  body : List Stmt
  span : Span

/-- The types of all slots, parameters first. -/
def Function.slots (f : Function) : List NumType := f.signature.params ++ f.locals

/-- The type of a slot. -/
def Function.slotType? (f : Function) (slot : UInt32) : Option NumType := f.slots[slot.toNat]?

/-- A module: its imports and its functions. -/
structure Module where
  imports : List Import
  functions : List Function

/-- The index of a callee among the imports and the functions. -/
def Module.indexOf (m : Module) : Callee → Nat
  | .imported index => index
  | .defined index => m.imports.length + index

end Offside.Typed
