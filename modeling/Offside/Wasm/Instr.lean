/-
  Offside/Wasm/Instr.lean
  =======================
  **Instructions.**  The WebAssembly instructions that a program is lowered to, as a flat
  list in which `block`, `loop` and `if` are closed by `end`.  All three have the empty
  block type.  Arithmetic and comparison are one instruction each over the value type and
  the operator.
-/
import Offside.Number.Binary64
import Offside.Operator
import Offside.Signature

namespace Offside.Wasm

open Number

/-- The types of values on the operand stack. -/
inductive ValType where
  | i32 | f64
deriving DecidableEq, Repr

def ValType.name : ValType → String
  | i32 => "i32"
  | f64 => "f64"

/-- The byte that stands for the type in a binary. -/
def ValType.byte : ValType → UInt8
  | i32 => 0x7F
  | f64 => 0x7C

/-- The type of the values that a number type is represented by. -/
def ValType.ofNumType : NumType → ValType
  | .int => i32
  | .float => f64

/-- An instruction. -/
inductive Instr where
  | unreachable
  | block
  | loop
  | ifThen
  | elseThen
  | endBlock
  | br (depth : UInt32)
  | brIf (depth : UInt32)
  | ret
  | call (index : UInt32)
  | drop
  | localGet (slot : UInt32)
  | localSet (slot : UInt32)
  | i32Const (value : Int32)
  | f64Const (value : Binary64)
  | i32Eqz
  | f64Neg
  | compare (type : ValType) (op : CompareOp)
  | arith (type : ValType) (op : BinaryOp)
  | logic (op : BoolOp)
deriving DecidableEq, Repr

namespace Instr

def compareOpcode : ValType → CompareOp → UInt8
  | .i32, .eq => 0x46
  | .i32, .ne => 0x47
  | .i32, .lt => 0x48
  | .i32, .gt => 0x4A
  | .i32, .le => 0x4C
  | .i32, .ge => 0x4E
  | .f64, .eq => 0x61
  | .f64, .ne => 0x62
  | .f64, .lt => 0x63
  | .f64, .gt => 0x64
  | .f64, .le => 0x65
  | .f64, .ge => 0x66

def arithOpcode : ValType → BinaryOp → UInt8
  | .i32, .add => 0x6A
  | .i32, .sub => 0x6B
  | .i32, .mul => 0x6C
  | .i32, .div => 0x6D
  | .f64, .add => 0xA0
  | .f64, .sub => 0xA1
  | .f64, .mul => 0xA2
  | .f64, .div => 0xA3

/-- The first byte of an instruction.  Comparison and division of integers are signed. -/
def opcode : Instr → UInt8
  | unreachable => 0x00
  | block => 0x02
  | loop => 0x03
  | ifThen => 0x04
  | elseThen => 0x05
  | endBlock => 0x0B
  | br _ => 0x0C
  | brIf _ => 0x0D
  | ret => 0x0F
  | call _ => 0x10
  | drop => 0x1A
  | localGet _ => 0x20
  | localSet _ => 0x21
  | i32Const _ => 0x41
  | f64Const _ => 0x44
  | i32Eqz => 0x45
  | f64Neg => 0x9A
  | compare t op => compareOpcode t op
  | arith t op => arithOpcode t op
  | logic .and => 0x71
  | logic .or => 0x72

end Instr
end Offside.Wasm
