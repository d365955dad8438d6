/-
  Offside/Typed/Scope.lean
  ========================
  **Names in force.**  A `Scope` holds the variables of one function: parameters take the
  first slots, and any other name the next free one when it is first assigned.  A
  `Callables` table holds what can be called; an import without a signature is pending
  until its first call fixes one.
-/
import Offside.Diagnostic
import Offside.Surface
import Offside.Typed

namespace Offside.Typed

/-! ### Variables -/

/-- A variable of a function. -/
structure Variable where
  name : String
  type : NumType
  slot : UInt32
deriving DecidableEq, Repr

/-- The variables of a function. -/
structure Scope where
  function : String
  result : Option NumType
  /-- The variables by name, the latest first. -/
  vars : List Variable
  paramCount : Nat
  /-- The types of the variables that are not parameters, in slot order. -/
  locals : List NumType
deriving DecidableEq, Repr

namespace Scope

/-- The scope of a function before its parameters. -/
def empty (function : String) (result : Option NumType) : Scope :=
  ⟨function, result, [], 0, []⟩

/-- The variable with the given name. -/
def find? (s : Scope) (name : String) : Option Variable :=
  s.vars.find? (·.name = name)

/-- Enters a variable in place of an earlier one of its name. -/
def enter (s : Scope) (v : Variable) : Scope :=
  { s with vars := v :: s.vars.filter (·.name ≠ v.name) }

/-- The slot of the next parameter. -/
def nextParam (s : Scope) : UInt32 := UInt32.ofNat s.paramCount

/-- Declares a parameter, whose name must be new. -/
def declareParam (s : Scope) (name : String) (type : NumType) (position : Position) :
    Except Diagnostic Scope :=
  match s.find? name with
  | some _ => .error ⟨.variableAlreadyDeclared name, position⟩
  | none => .ok { s.enter ⟨name, type, s.nextParam⟩ with paramCount := s.paramCount + 1 }

/-- The slot of the next variable that is not a parameter. -/
def nextLocal (s : Scope) : UInt32 := UInt32.ofNat (s.paramCount + s.locals.length)

/-- Declares a variable that is not a parameter. -/
def declareLocal (s : Scope) (name : String) (type : NumType) : Scope :=
  { s.enter ⟨name, type, s.nextLocal⟩ with locals := s.locals ++ [type] }

end Scope

/-! ### Callables -/

/-- An import under check.  While it is pending its signature is not known. -/
structure PendingImport where
  declared : Import
  pending : Bool
deriving DecidableEq, Repr

/-- What can be called. -/
structure Callables where
  imports : List PendingImport
  signatures : List Signature
  /-- The callables by name, the latest first. -/
  names : List (String × Callee)
deriving DecidableEq, Repr

namespace Callables

def empty : Callables := ⟨[], [], []⟩

/-- The callable with the given name. -/
def find? (t : Callables) (name : String) : Option Callee := t.names.lookup name

/-- The signature of a callable as far as it is known. -/
def signature (t : Callables) : Callee → Signature
  | .imported index => (t.imports[index]?.map (·.declared.signature)).getD Signature.empty
  | .defined index => t.signatures[index]?.getD Signature.empty

/-- The import a callee stands for, if its signature is still to be fixed. -/
def pending? (t : Callables) : Callee → Option (Nat × Import)
  | .imported index =>
    match t.imports[index]? with
    | some i => if i.pending then some (index, i.declared) else none
    | none => none
  | .defined _ => none

/-- Fixes the signature of the import with the given index. -/
def settle (t : Callables) (index : Nat) (signature : Signature) : Callables :=
  { t with imports := t.imports.modify index fun i =>
      ⟨{ i.declared with signature := signature }, false⟩ }

/-- Enters a callable name. -/
def enter (t : Callables) (name : String) (callee : Callee) : Callables :=
  { t with names := (name, callee) :: t.names }

/-- Adds an import under the next index, without its name. -/
def addImport (t : Callables) (i : PendingImport) : Callables :=
  { t with imports := t.imports ++ [i] }

/-- Adds the signature of a function under the next index, without its name. -/
def addFunction (t : Callables) (s : Signature) : Callables :=
  { t with signatures := t.signatures ++ [s] }

end Callables
end Offside.Typed
