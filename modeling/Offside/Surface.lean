/-
  Offside/Surface.lean
  ====================
  **The surface tree.**  What a program says, name by name, before any type is known: a
  list of imports and a list of functions, whose bodies are blocks of statements over
  expressions.  Every node carries the span it was read from.

  An `elif` is kept as the statement alone in the other branch, and `ord` of a character
  literal as the character.
-/
import Offside.Number.Binary64
import Offside.Operator
import Offside.Position

namespace Offside.Surface

open Number

/-- The name of the builtin that gives the code point of a character literal.  It can
    neither be imported nor defined. -/
def ordName : String := "ord"

/-- A type as it is written. -/
structure TypeExpr where
  name : String
  span : Span
deriving DecidableEq, Repr

/-- An expression. -/
inductive Expr where
  | number (value : Int32) (span : Span)
  | float (value : Binary64) (span : Span)
  | char (value : Char) (span : Span)
  | symbol (name : String) (span : Span)
  | binary (op : BinaryOp) (left right : Expr) (span : Span)
  | compare (op : CompareOp) (left right : Expr) (span : Span)
  | logic (op : BoolOp) (left right : Expr) (span : Span)
  | negate (operand : Expr) (span : Span)
  | call (callee : String) (arguments : List Expr) (span : Span)

def Expr.span : Expr → Span
  | number _ s | float _ s | char _ s | symbol _ s | binary _ _ _ s | compare _ _ _ s
  | logic _ _ _ s | negate _ s | call _ _ s => s

/-- A block of statements. -/
structure Block (α : Type) where
  body : List α
  span : Span

/-- A statement. -/
inductive Stmt where
  | assign (target : String) (value : Expr) (span : Span)
  | perform (call : Expr) (span : Span)
  | ifThen (condition : Expr) (body : Block Stmt) (span : Span)
  | ifElse (condition : Expr) (body orElse : Block Stmt) (span : Span)
  | whileDo (condition : Expr) (body : Block Stmt) (span : Span)
  | ret (value : Option Expr) (span : Span)
  | pass (span : Span)
  | brk (span : Span)
  | cont (span : Span)

def Stmt.span : Stmt → Span
  | assign _ _ s | perform _ s | ifThen _ _ s | ifElse _ _ _ s | whileDo _ _ s | ret _ s
  | pass s | brk s | cont s => s

/-- The types written after an imported name. -/
structure ImportSignature where
  params : List TypeExpr
  result : Option TypeExpr
deriving DecidableEq, Repr

/-- One imported name. -/
structure Import where
  module : String
  name : String
  signature : Option ImportSignature
  span : Span
deriving DecidableEq, Repr

structure Parameter where
  name : String
  type : TypeExpr
  span : Span
deriving DecidableEq, Repr

/-- The definition of a function. -/
structure Function where
  name : String
  params : List Parameter
  result : Option TypeExpr
  body : Block Stmt
  span : Span

/-- A program: its imports and its functions, each in the order they are written. -/
structure Program where
  imports : List Import
  functions : List Function

end Offside.Surface
