/-
  Offside/Wasm/Binary.lean
  ========================
  **The binary format.**  Eight bytes of header, then the sections for types, imports,
  functions, exports and code, in this order; a section without entries is left out.
-/
import Offside.Wasm.Leb128
import Offside.Wasm.Module

namespace Offside.Wasm

/-! ### Instructions -/

/-- The eight bytes of a value, the lowest first. -/
def littleEndian (bits : UInt64) : List UInt8 :=
  (List.range 8).map fun i => (bits >>> UInt64.ofNat (8 * i)).toUInt8

/-- The byte for the empty block type. -/
def emptyBlockType : UInt8 := 0x40

/-- What follows the opcode of an instruction. -/
def Instr.operands : Instr → List UInt8
  | .block | .loop | .ifThen => [emptyBlockType]
  | .br n | .brIf n | .call n | .localGet n | .localSet n => u32Leb n
  | .i32Const value => i32Leb value
  | .f64Const value => littleEndian value.bits
  | .unreachable | .elseThen | .endBlock | .ret | .drop | .i32Eqz | .f64Neg | .compare _ _
  | .arith _ _ | .logic _ => []

/-- The bytes of an instruction. -/
def Instr.encode (i : Instr) : List UInt8 := i.opcode :: i.operands

/-! ### Functions -/

/-- Groups neighbouring locals of one type into runs of a count and a type. -/
def runs : List ValType → List (Nat × ValType)
  | [] => []
  | t :: ts =>
    match runs ts with
    | [] => [(1, t)]
    | (n, u) :: more => if t = u then (n + 1, u) :: more else (1, t) :: (n, u) :: more

/-- The bytes of the locals of a function. -/
def encodeLocals (locals : List ValType) : List UInt8 :=
  let rs := runs locals
  countLeb rs.length ++ rs.flatMap fun (n, t) => countLeb n ++ [t.byte]

/-- The bytes of a function: its locals, its body and the `end` behind it. -/
def Function.encode (f : Function) : List UInt8 :=
  encodeLocals f.locals ++ f.body.flatMap Instr.encode ++ Instr.endBlock.encode

/-! ### Sections -/

/-- A section: its number, how many entries it has, and their bytes. -/
structure Section where
  id : UInt8
  count : Nat
  payload : List UInt8
deriving DecidableEq, Repr

/-- The entries behind their number. -/
def Section.contents (s : Section) : List UInt8 := countLeb s.count ++ s.payload

/-- The bytes of a section. -/
def Section.encode (s : Section) : List UInt8 := s.id :: sized s.contents

/-- The section of the given entries. -/
def Section.ofEntries {α : Type} (id : UInt8) (encode : α → List UInt8) (entries : List α) :
    Section :=
  ⟨id, entries.length, entries.flatMap encode⟩

/-- Value types behind their number. -/
def encodeValTypes (ts : List ValType) : List UInt8 :=
  countLeb ts.length ++ ts.map ValType.byte

/-- The byte that announces a function type. -/
def funcTypeForm : UInt8 := 0x60

/-- The byte that says that an import or an export is a function. -/
def functionKind : UInt8 := 0x00

def FuncType.encode (t : FuncType) : List UInt8 :=
  funcTypeForm :: encodeValTypes t.params ++ encodeValTypes t.results

def Import.encode (i : Import) : List UInt8 :=
  encodeName i.module ++ encodeName i.name ++ functionKind :: u32Leb i.typeIndex

def Export.encode (e : Export) : List UInt8 :=
  encodeName e.name ++ functionKind :: u32Leb e.functionIndex

/-- The sections of a module that have entries. -/
def Module.sections (m : Module) : List Section :=
  [.ofEntries 1 FuncType.encode m.types,
   .ofEntries 2 Import.encode m.imports,
   .ofEntries 3 (fun f : Function => u32Leb f.typeIndex) m.functions,
   .ofEntries 7 Export.encode m.exports,
   .ofEntries 10 (fun f : Function => sized f.encode) m.functions].filter (0 < ·.count)

/-- The bytes that every module begins with: the magic number and the version. -/
def header : List UInt8 := [0x00, 0x61, 0x73, 0x6D, 0x01, 0x00, 0x00, 0x00]

/-- The bytes of a module. -/
def Module.encode (m : Module) : List UInt8 := header ++ m.sections.flatMap Section.encode

end Offside.Wasm
