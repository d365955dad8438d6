/-
  Offside/Wasm/Module.lean
  ========================
  **A WebAssembly module** as it is put together: function types, imports, functions and
  exports.  Equal types share one entry, in the order in which they were first used.  The
  imported functions take the first function indices, so all imports are added before any
  function.
-/
import Offside.Wasm.Instr

namespace Offside.Wasm

/-- The type of a function. -/
structure FuncType where
  params : List ValType
  results : List ValType
deriving DecidableEq, Repr

/-- The type of a function with the given signature. -/
def FuncType.ofSignature (s : Signature) : FuncType :=
  ⟨s.params.map ValType.ofNumType, s.result.toList.map ValType.ofNumType⟩

structure Import where
  module : String
  name : String
  typeIndex : UInt32
deriving DecidableEq, Repr

/-- A function.  Its body lacks the `end` that closes it. -/
structure Function where
  typeIndex : UInt32
  locals : List ValType
  body : List Instr
deriving DecidableEq, Repr

structure Export where
  name : String
  functionIndex : UInt32
deriving DecidableEq, Repr

/-- A module. -/
structure Module where
  types : List FuncType
  imports : List Import
  functions : List Function
  exports : List Export
deriving DecidableEq, Repr

namespace Module

/-- The module without any entry. -/
def empty : Module := ⟨[], [], [], []⟩

/-- The index of a type that the module has. -/
def typeIndex? (m : Module) (t : FuncType) : Option Nat := m.types.idxOf? t

/-- The index of a type, which is added if the module does not have it. -/
def addType (m : Module) (t : FuncType) : UInt32 × Module :=
  match m.typeIndex? t with
  | some index => (UInt32.ofNat index, m)
  | none => (UInt32.ofNat m.types.length, { m with types := m.types ++ [t] })

/-- Adds an import and gives its function index. -/
def addImport (m : Module) (module name : String) (t : FuncType) : UInt32 × Module :=
  let (typeIndex, m') := m.addType t
  (UInt32.ofNat m.imports.length, { m' with imports := m.imports ++ [⟨module, name, typeIndex⟩] })

/-- Adds a function and gives its function index. -/
def addFunction (m : Module) (t : FuncType) (locals : List ValType) (body : List Instr) :
    UInt32 × Module :=
  let (typeIndex, m') := m.addType t
  (UInt32.ofNat (m.imports.length + m.functions.length),
   { m' with functions := m.functions ++ [⟨typeIndex, locals, body⟩] })

/-- Exports the function with the given index. -/
def addExport (m : Module) (name : String) (functionIndex : UInt32) : Module :=
  { m with exports := m.exports ++ [⟨name, functionIndex⟩] }

end Module
end Offside.Wasm
