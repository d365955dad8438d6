/-
  Offside/Signature.lean
  ======================
  **Types.**  A variable holds an `int` (32 bits, signed) or a `float` (double
  precision).  An expression has one of these types, or is a truth value, or, as a call
  of a function without a result, has no value at all.
-/
namespace Offside

/-- The type of a variable, a parameter or a result. -/
inductive NumType where
  | int | float
deriving DecidableEq, Repr

def NumType.name : NumType → String
  | .int => "int"
  | .float => "float"

def NumType.ofName? (name : String) : Option NumType :=
  if name = "int" then some .int else if name = "float" then some .float else none

theorem NumType.ofName?_name (t : NumType) : NumType.ofName? t.name = some t := by
  cases t <;> rfl

/-- Parameter types and the result type, if the function gives one. -/
structure Signature where
  params : List NumType
  result : Option NumType
deriving DecidableEq, Repr

/-- The signature with no parameters and no result. -/
def Signature.empty : Signature := ⟨[], none⟩

instance : Inhabited Signature := ⟨Signature.empty⟩

/-- A signature as it is shown to a user, such as `(int, float) -> int`. -/
def Signature.text (s : Signature) : String :=
  let params := "(" ++ ", ".intercalate (s.params.map NumType.name) ++ ")"
  match s.result with
  | some t => params ++ " -> " ++ t.name
  | none => params

/-- The type of an expression.  Comparisons and connectives are `bool`, which only a
    condition may be; a call without a result is `void`. -/
inductive ExprType where
  | value (t : NumType)
  | bool
  | void
deriving DecidableEq, Repr

def ExprType.name : ExprType → String
  | .value t => t.name
  | .bool => "bool"
  | .void => "None"

/-- The type of a call of a function with the given result. -/
def ExprType.ofResult : Option NumType → ExprType
  | some t => .value t
  | none => .void

end Offside
