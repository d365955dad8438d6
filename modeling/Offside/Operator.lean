/-
  Offside/Operator.lean
  =====================
  **Operators.**  The arithmetic operators, the comparisons and the two connectives,
  shared by the surface tree, the typed tree and the instructions.
-/
namespace Offside

inductive BinaryOp where
  | add | sub | mul | div
deriving DecidableEq, Repr

inductive CompareOp where
  | lt | le | gt | ge | eq | ne
deriving DecidableEq, Repr

inductive BoolOp where
  | and | or
deriving DecidableEq, Repr

def BinaryOp.symbol : BinaryOp → String
  | .add => "+"
  | .sub => "-"
  | .mul => "*"
  | .div => "/"

def CompareOp.symbol : CompareOp → String
  | .lt => "<"
  | .le => "<="
  | .gt => ">"
  | .ge => ">="
  | .eq => "=="
  | .ne => "!="

def BoolOp.symbol : BoolOp → String
  | .and => "and"
  | .or => "or"

end Offside
